import GraphSelect.Traversal.Basic

/-!
# Traversals in JSON

The command can print the steps of a traversal as data: every step is an object with its name and,
where it has any, its arguments.
-/

set_option autoImplicit false

namespace GraphSelect

def Origin.name : Origin → String
  | .root => "root"
  | .anonymous => "anonymous"

def Step.bareJson (name : String) : Json :=
  .obj [("step", .str name)]

def Step.argumentJson (name : String) (arguments : Json) : Json :=
  .obj [("step", .str name), ("args", arguments)]

mutual

def Traversal.toJson : Traversal → Json
  | .mk origin steps => .obj [("origin", .str origin.name), ("steps", .arr (Step.allToJson steps))]

def Step.toJson : Step → Json
  | .vertices => Step.bareJson "v"
  | .edges => Step.bareJson "e"
  | .hasLabel label => Step.argumentJson "has_label" (.str label)
  | .group => Step.bareJson "group"
  | .by key direction =>
    Step.argumentJson "by" (.obj [("traversal", key.toJson),
      ("order", match direction with
        | some d => .str d.name
        | none => .null)])
  | .unfold => Step.bareJson "unfold"
  | .fold => Step.bareJson "fold"
  | .selectValues => Step.bareJson "select_values"
  | .order => Step.bareJson "order"
  | .filter condition => Step.argumentJson "where" condition.toJson
  | .values key => Step.argumentJson "values" (.str key)
  | .id => Step.bareJson "id"
  | .inVertex => Step.bareJson "in_v"
  | .outVertex => Step.bareJson "out_v"
  | .union branches => Step.argumentJson "union" (.arr (Traversal.allToJson branches))
  | .and branches => Step.argumentJson "and" (.arr (Traversal.allToJson branches))
  | .or branches => Step.argumentJson "or" (.arr (Traversal.allToJson branches))
  | .is compare value =>
    Step.argumentJson "is" (.obj [("compare", .str compare.name), ("value", value.serialized)])
  | .project keys => Step.argumentJson "project" (.arr (keys.map .str))
  | .coalesce branches => Step.argumentJson "coalesce" (.arr (Traversal.allToJson branches))
  | .constant value => Step.argumentJson "constant" value.serialized
  | .count => Step.bareJson "count"
  | .sum => Step.bareJson "sum"
  | .mean => Step.bareJson "mean"
  | .min => Step.bareJson "min"
  | .max => Step.bareJson "max"

def Step.allToJson : List Step → List Json
  | [] => []
  | s :: rest => s.toJson :: Step.allToJson rest

def Traversal.allToJson : List Traversal → List Json
  | [] => []
  | t :: rest => t.toJson :: Traversal.allToJson rest

end

end GraphSelect
