import GraphSelect.Scalar
import GraphSelect.Schema.Table

/-!
# Gremlin traversals

A traversal is a pipeline of steps. The one that is sent to the server starts at the graph; those
inside steps (the key of a grouping, the condition of a filter, the branches of a union) are
anonymous and start at whatever reaches the step. Only the steps that compiled queries use are
modelled.
-/

set_option autoImplicit false

namespace GraphSelect

inductive Origin where
  -- At the graph.
  | root
  -- At what reaches the step that it stands in.
  | anonymous
deriving DecidableEq

inductive Direction where
  | asc
  | desc
deriving DecidableEq

/-- A comparison of the incoming value with a constant. -/
inductive Compare where
  | eq
  | neq
  | lt
  | lte
  | gt
  | gte
deriving DecidableEq

/-- The comparison seen from the other operand: `5 < x` is `x > 5`. -/
def Compare.flipped : Compare → Compare
  | .eq => .eq
  | .neq => .neq
  | .lt => .gt
  | .lte => .gte
  | .gt => .lt
  | .gte => .lte

def Compare.name : Compare → String
  | .eq => "eq"
  | .neq => "neq"
  | .lt => "lt"
  | .lte => "lte"
  | .gt => "gt"
  | .gte => "gte"

def Compare.all : List Compare :=
  [.eq, .neq, .lt, .lte, .gt, .gte]

def Direction.name : Direction → String
  | .asc => "asc"
  | .desc => "desc"

mutual

inductive Traversal where
  | mk (origin : Origin) (steps : List Step)

inductive Step where
  | vertices
  | edges
  -- Keeps elements with exactly this label.
  | hasLabel (label : String)
  -- Collects what arrives into a map from keys to lists.
  | group
  -- Modifies a grouping, an ordering or a projection before it.
  | by (key : Traversal) (direction : Option Direction)
  -- The members of a list or the entries of a map, one after the other.
  | unfold
  -- Everything that arrives as one list.
  | fold
  | selectValues
  | order
  -- Keeps what the traversal finds something for.
  | filter (condition : Traversal)
  -- The value of a property, nothing if it is absent.
  | values (key : String)
  | id
  -- The vertex that an edge leads into.
  | inVertex
  -- The vertex that an edge comes out of.
  | outVertex
  -- What the branches find, one branch after the other.
  | union (branches : List Traversal)
  -- Keeps what all branches find something for.
  | and (branches : List Traversal)
  -- Keeps what some branch finds something for.
  | or (branches : List Traversal)
  -- Keeps the values that compare so with a constant.
  | is (compare : Compare) (value : Scalar)
  -- Builds a map with these keys, each filled by a modifier after it.
  | project (keys : List String)
  -- What the first branch that finds something finds.
  | coalesce (branches : List Traversal)
  | constant (value : Scalar)
  | count
  | sum
  | mean
  | min
  | max

end

namespace Traversal

def origin : Traversal → Origin
  | .mk origin _ => origin

def steps : Traversal → List Step
  | .mk _ steps => steps

/-- A traversal that starts at what reaches it. -/
def anonymous (steps : List Step) : Traversal :=
  .mk .anonymous steps

/-- A traversal that starts at the graph. -/
def root (steps : List Step) : Traversal :=
  .mk .root steps

def andThen (t : Traversal) (step : Step) : Traversal :=
  .mk t.origin (t.steps ++ [step])

end Traversal

/-- The steps from an element to the value of a column. -/
def ColumnSource.steps : ColumnSource → List Step
  | .property key => [.values key]
  | .id => [.id]
  | .inVertexId => [.inVertex, .id]
  | .outVertexId => [.outVertex, .id]

end GraphSelect
