import GraphSelect.Expr.View

/-!
# What a traversal does to a graph

A compiled select is a text for somebody else to run. To say that it is the right text, one has to
say what running it gives, and that is done here: a step turns the values that arrive into the
values that leave, and a pipeline is one step after the other.

Modifiers are the one thing that is not compositional from left to right: a `by` belongs to the
grouping, the ordering or the projection before it. A list of steps is therefore read from the
right, as a `Pipeline`. It holds the modifiers that the list starts with, not yet taken by anybody,
and what the steps after them do.

What the server decides for itself is left open in an `Engine`: how two values compare, which of two
values sorts first, and what an aggregate makes of its input. An element is the same as another if
it is of the same sort and has the same id, whatever else it carries. A grouping, an ordering or a
projection does nothing with a value for which one of its modifiers finds nothing.
-/

set_option autoImplicit false

namespace GraphSelect

/-! ## Graphs -/

structure Vertex where
  id : Scalar
  label : String
  properties : List (String × Scalar)
deriving DecidableEq

/-- An edge of a graph, with the vertex that it leads into and the one that it comes out of. -/
structure Edge where
  id : Scalar
  label : String
  properties : List (String × Scalar)
  inVertex : Vertex
  outVertex : Vertex
deriving DecidableEq

structure Graph where
  vertices : List Vertex
  edges : List Edge

inductive Element where
  | vertex (v : Vertex)
  | edge (e : Edge)
deriving DecidableEq

namespace Element

def id : Element → Scalar
  | .vertex v => v.id
  | .edge e => e.id

def label : Element → String
  | .vertex v => v.label
  | .edge e => e.label

/-- The value of a property, if the element carries it. -/
def property? (key : String) : Element → Option Scalar
  | .vertex v => v.properties.lookup key
  | .edge e => e.properties.lookup key

def inVertex? : Element → Option Vertex
  | .vertex _ => none
  | .edge e => some e.inVertex

def outVertex? : Element → Option Vertex
  | .vertex _ => none
  | .edge e => some e.outVertex

/-- Whether two elements are the same one. -/
def same : Element → Element → Bool
  | .vertex v, .vertex w => v.id == w.id
  | .edge e, .edge f => e.id == f.id
  | _, _ => false

end Element

/-- The value of a column on an element, if there is one. -/
def ColumnSource.read (x : Element) : ColumnSource → Option Scalar
  | .property key => x.property? key
  | .id => some x.id
  | .inVertexId => x.inVertex?.map Vertex.id
  | .outVertexId => x.outVertex?.map Vertex.id

/-! ## Values -/

/-- What travels between steps. -/
inductive Value where
  | scalar (v : Scalar)
  | element (x : Element)
  | list (items : List Value)
  -- What a grouping collects: keys with the values that have them.
  | map (entries : List (Value × Value))
  | entry (key value : Value)
  -- What a projection builds.
  | record (fields : List (String × Value))

namespace Value

mutual

/-- Whether two values are one key. Only scalars, elements and lists of such are used as keys. -/
def sameKey : Value → Value → Bool
  | .scalar a, .scalar b => a == b
  | .element x, .element y => x.same y
  | .list xs, .list ys => sameKeys xs ys
  | _, _ => false

/-- Whether two lists are equal as keys, item by item. -/
def sameKeys : List Value → List Value → Bool
  | [], [] => true
  | x :: xs, y :: ys => sameKey x y && sameKeys xs ys
  | _, _ => false

end

/-- The members of a list or the entries of a map; anything else is its only member. -/
def members : Value → List Value
  | .list items => items
  | .map entries => entries.map fun e => .entry e.1 e.2
  | v => [v]

def entryValue : Value → List Value
  | .entry _ v => [v]
  | _ => []

def property (key : String) : Value → List Value
  | .element x => (x.property? key).toList.map .scalar
  | _ => []

def elementId : Value → List Value
  | .element x => [.scalar x.id]
  | _ => []

def inVertex : Value → List Value
  | .element x => x.inVertex?.toList.map fun v => .element (.vertex v)
  | _ => []

def outVertex : Value → List Value
  | .element x => x.outVertex?.toList.map fun v => .element (.vertex v)
  | _ => []

/-- Whether a value is an element with exactly this label. -/
def hasLabel (label : String) : Value → Bool
  | .element x => x.label == label
  | _ => false

end Value

/-! ## Steps -/

/-- What a server decides for itself. -/
structure Engine where
  -- Whether a value compares so with a constant.
  compare : Compare → Scalar → Scalar → Bool
  -- Whether a value may be sorted before another.
  precedes : Value → Value → Bool
  -- What an aggregate makes of the values that arrive.
  reduce : Aggregate → List Value → List Value

/-- The comparisons of a server make sense: one that is turned around holds for the operands turned
around, and a value equals a truth value only if it is that truth value. -/
structure Engine.LawfulCompare (e : Engine) : Prop where
  flipped : ∀ (c : Compare) (a b : Scalar), e.compare c.flipped a b = e.compare c b a
  eq_boolean : ∀ (v : Scalar) (b : Bool), e.compare .eq v (.boolean b) = decide (v = .boolean b)

def Scalar.isLess : Scalar → Scalar → Bool
  | .long i, .long j => decide (i < j)
  | _, _ => false

/-- A server that orders whole numbers only, keeps the order it finds and can only count. -/
def Engine.plain : Engine where
  compare
    | .eq, a, b => decide (a = b)
    | .neq, a, b => decide (a ≠ b)
    | .lt, a, b => a.isLess b
    | .lte, a, b => a.isLess b || decide (a = b)
    | .gt, a, b => b.isLess a
    | .gte, a, b => b.isLess a || decide (b = a)
  precedes _ _ := true
  reduce
    | .count, values => [.scalar (.long (Int64.ofNat values.length))]
    | _, _ => []

theorem Engine.plain_lawfulCompare : Engine.plain.LawfulCompare where
  flipped c a b := by cases c <;> simp [Engine.plain, Compare.flipped, eq_comm]
  eq_boolean v b := rfl

/-- A modifier: what it finds for a value, and a direction if it gives one. -/
structure Modifier where
  find : Value → List Value
  direction : Option Direction

/-- Puts a value under its key, behind the others there. -/
def intoBucket (key value : Value) : List (Value × List Value) → List (Value × List Value)
  | [] => [(key, [value])]
  | (k, values) :: rest =>
    if k.sameKey key then (k, values ++ [value]) :: rest
    else (k, values) :: intoBucket key value rest

/-- The values by their keys. The key of a value is the first thing found for it. -/
def buckets (key : Value → List Value) (values : List Value) : List (Value × List Value) :=
  values.foldl (fun acc v => match key v with
    | [] => acc
    | k :: _ => intoBucket k v acc) []

/-- A grouping. Without a modifier, every value is its own key. -/
def grouped (modifiers : List Modifier) (values : List Value) : Value :=
  let key := match modifiers with
    | [] => fun v => [v]
    | m :: _ => m.find
  .map ((buckets key values).map fun b => (b.1, .list b.2))

/-- Whether a value may be sorted before another, by the first modifier that tells them apart. -/
def Engine.sortsBefore (e : Engine) : List Modifier → Value → Value → Bool
  | [], _, _ => true
  | m :: rest, a, b =>
    match (m.find a).head?, (m.find b).head? with
    | some x, some y =>
      let (x, y) := if m.direction = some .desc then (y, x) else (x, y)
      if e.precedes x y && e.precedes y x then e.sortsBefore rest a b else e.precedes x y
    | _, _ => true

def Engine.ordered (e : Engine) (modifiers : List Modifier) (values : List Value) : List Value :=
  (values.filter fun v => modifiers.all fun m => !(m.find v).isEmpty).mergeSort
    (e.sortsBefore modifiers)

/-- A projection of one value: each key with the first thing that its modifier finds. -/
def projected (keys : List String) (modifiers : List Modifier) (v : Value) : Value :=
  .record ((keys.zip modifiers).filterMap fun p => (p.2.find v).head?.map fun found => (p.1, found))

/-- Whether a value passes a comparison with a constant. Only a scalar can. -/
def Engine.passes (e : Engine) (c : Compare) (constant : Scalar) : Value → Bool
  | .scalar v => e.compare c v constant
  | _ => false

/-- What a list of steps does: the modifiers that it starts with, for the step before it, and what
the steps after them make of the values that arrive. -/
structure Pipeline where
  modifiers : List Modifier
  flow : List Value → List Value

mutual

/-- What a traversal makes of the values that arrive. -/
def Traversal.run (e : Engine) (g : Graph) : Traversal → List Value → List Value
  | .mk _ steps => (pipeline e g steps).flow

def pipeline (e : Engine) (g : Graph) : List Step → Pipeline
  | [] => ⟨[], fun values => values⟩
  | .by key direction :: rest =>
    let p := pipeline e g rest
    ⟨⟨fun v => key.run e g [v], direction⟩ :: p.modifiers, p.flow⟩
  | s :: rest =>
    let p := pipeline e g rest
    ⟨[], fun values => p.flow (s.apply e g p.modifiers values)⟩

/-- What one step makes of the values that arrive, given its modifiers. -/
def Step.apply (e : Engine) (g : Graph) : Step → List Modifier → List Value → List Value
  | .vertices, _, _ => g.vertices.map fun v => .element (.vertex v)
  | .edges, _, _ => g.edges.map fun x => .element (.edge x)
  | .hasLabel label, _, values => values.filter (Value.hasLabel label)
  | .group, modifiers, values => [grouped modifiers values]
  | .by _ _, _, values => values
  | .unfold, _, values => values.flatMap Value.members
  | .fold, _, values => [.list values]
  | .selectValues, _, values => values.flatMap Value.entryValue
  | .order, modifiers, values => e.ordered modifiers values
  | .filter condition, _, values => values.filter fun v => !(condition.run e g [v]).isEmpty
  | .values key, _, values => values.flatMap (Value.property key)
  | .id, _, values => values.flatMap Value.elementId
  | .inVertex, _, values => values.flatMap Value.inVertex
  | .outVertex, _, values => values.flatMap Value.outVertex
  | .union branches, _, values => values.flatMap fun v => (runEach e g branches v).flatten
  | .and branches, _, values =>
    values.filter fun v => (runEach e g branches v).all fun found => !found.isEmpty
  | .or branches, _, values =>
    values.filter fun v => (runEach e g branches v).any fun found => !found.isEmpty
  | .is c constant, _, values => values.filter (e.passes c constant)
  | .project keys, modifiers, values => values.map (projected keys modifiers)
  | .coalesce branches, _, values =>
    values.flatMap fun v => ((runEach e g branches v).find? fun found => !found.isEmpty).getD []
  | .constant constant, _, values => values.map fun _ => .scalar constant
  | .count, _, values => e.reduce .count values
  | .sum, _, values => e.reduce .sum values
  | .mean, _, values => e.reduce .avg values
  | .min, _, values => e.reduce .min values
  | .max, _, values => e.reduce .max values

/-- What each of several traversals finds for one value. -/
def runEach (e : Engine) (g : Graph) : List Traversal → Value → List (List Value)
  | [], _ => []
  | t :: rest, v => t.run e g [v] :: runEach e g rest v

end

/-- What a traversal that starts at the graph gives. -/
def Traversal.results (e : Engine) (g : Graph) (t : Traversal) : List Value :=
  t.run e g []

namespace Value

def scalar? : Value → Option Scalar
  | .scalar v => some v
  | _ => none

/-- The raw result that a value is sent as. Only scalars and records of scalars are sent. -/
def raw? : Value → Option Json
  | .scalar v => some v.serialized
  | .record fields =>
    (fields.mapM fun f => (scalar? f.2).map fun c => (f.1, c.serialized)).map .obj
  | _ => none

end Value

/-! ## Pipelines -/

section

variable {e : Engine} {g : Graph}

@[simp] theorem Traversal.run_anonymous (steps : List Step) (values : List Value) :
    (Traversal.anonymous steps).run e g values = (pipeline e g steps).flow values := by
  simp [Traversal.anonymous, Traversal.run]

@[simp] theorem Traversal.run_root (steps : List Step) (values : List Value) :
    (Traversal.root steps).run e g values = (pipeline e g steps).flow values := by
  simp [Traversal.root, Traversal.run]

theorem runEach_eq_map (branches : List Traversal) (v : Value) :
    runEach e g branches v = branches.map fun t => t.run e g [v] := by
  induction branches with
  | nil => rw [runEach, List.map_nil]
  | cons t rest ih => rw [runEach, ih, List.map_cons]

@[simp] theorem pipeline_nil : pipeline e g [] = ⟨[], fun values => values⟩ := by
  rw [pipeline]

@[simp] theorem pipeline_by (key : Traversal) (direction : Option Direction) (rest : List Step) :
    pipeline e g (.by key direction :: rest) =
      ⟨⟨fun v => key.run e g [v], direction⟩ :: (pipeline e g rest).modifiers,
        (pipeline e g rest).flow⟩ := by
  rw [pipeline]

/-- Whether a step modifies the one before it. -/
def Step.isModifier : Step → Bool
  | .by _ _ => true
  | _ => false

theorem Step.eq_by_of_isModifier {s : Step} (h : s.isModifier = true) :
    ∃ key direction, s = .by key direction := by
  unfold Step.isModifier at h
  split at h
  · exact ⟨_, _, rfl⟩
  · cases h

theorem pipeline_cons {s : Step} (h : s.isModifier = false) (rest : List Step) :
    pipeline e g (s :: rest) =
      ⟨[], fun values => (pipeline e g rest).flow
        (s.apply e g (pipeline e g rest).modifiers values)⟩ := by
  rw [pipeline]
  rintro key direction rfl
  cases h

/-- A pipeline that does not start with a modifier can be cut off from what comes before it. -/
theorem pipeline_append {after : List Step} (h : (pipeline e g after).modifiers = []) :
    ∀ before : List Step, pipeline e g (before ++ after) =
      ⟨(pipeline e g before).modifiers,
        fun values => (pipeline e g after).flow ((pipeline e g before).flow values)⟩ := by
  intro before
  induction before with
  | nil => simp [← h]
  | cons s rest ih =>
    cases hs : s.isModifier with
    | false => simp only [List.cons_append, pipeline_cons hs, ih]
    | true =>
      obtain ⟨key, direction, rfl⟩ := Step.eq_by_of_isModifier hs
      simp only [List.cons_append, pipeline_by, ih]

end

end GraphSelect
