import GraphSelect.Traversal.Basic

/-!
# Traversals as Groovy scripts

A server runs a traversal as a script: `g.V().hasLabel('person')`. Texts are quoted so that they
cannot end their own literal, integers and doubles carry a mark of their type, and a traversal
without steps is written as the step that changes nothing.
-/

set_option autoImplicit false

namespace GraphSelect

namespace Groovy

/-- Doubles in a script: of two nearest decimals the larger one, `.0` after a whole number, and an
exponent from `10^16` upwards and below `10^-4`. -/
def numberFormat : Decimal.NumberFormat where
  tie := .up
  leastPoint := some (-3)
  greatestPoint := some 16
  wholeMark := ['.', '0']
  exponentPlus := []

/-- A character inside a quoted text: a backslash stands before quotes and backslashes. -/
def escapeChar (c : Char) : List Char :=
  if c.toNat == 0x5C || c.toNat == 0x27 then ['\\', c] else [c]

def quoted (s : String) : List Char :=
  "'".toList ++ s.toList.flatMap escapeChar ++ "'".toList

/-- Texts with a comma and a blank between them. -/
def commaSeparated : List (List Char) → List Char
  | [] => []
  | [part] => part
  | part :: rest => part ++ ',' :: ' ' :: commaSeparated rest

end Groovy

open Groovy

def Scalar.groovyChars : Scalar → List Char
  | .null => "null".toList
  | .boolean b => if b then "true".toList else "false".toList
  | .long i => Decimal.intDigits i.toInt ++ ['L']
  | .double x => Groovy.numberFormat.chars x ++ ['d']
  | .string s => quoted s

/-- The characters of a step with its arguments between parentheses. -/
def Groovy.applied (name : String) (arguments : List Char) : List Char :=
  name.toList ++ '(' :: (arguments ++ [')'])

mutual

def Traversal.groovyChars : Traversal → List Char
  | .mk origin steps =>
    let start := match origin with
      | .root => ['g']
      | .anonymous => ['_', '_']
    match steps with
    | [] => start ++ ".identity()".toList
    | steps => start ++ Step.pipelineChars steps

def Step.groovyChars : Step → List Char
  | .vertices => applied "V" []
  | .edges => applied "E" []
  | .hasLabel label => applied "hasLabel" (quoted label)
  | .group => applied "group" []
  | .by key none => applied "by" key.groovyChars
  | .by key (some direction) =>
    applied "by" (key.groovyChars ++ ", ".toList ++ direction.name.toList)
  | .unfold => applied "unfold" []
  | .fold => applied "fold" []
  | .selectValues => applied "select" "values".toList
  | .order => applied "order" []
  | .filter condition => applied "where" condition.groovyChars
  | .values key => applied "values" (quoted key)
  | .id => applied "id" []
  | .inVertex => applied "inV" []
  | .outVertex => applied "outV" []
  | .union branches => applied "union" (commaSeparated (Traversal.branchChars branches))
  | .and branches => applied "and" (commaSeparated (Traversal.branchChars branches))
  | .or branches => applied "or" (commaSeparated (Traversal.branchChars branches))
  | .is compare value => applied "is" (applied compare.name value.groovyChars)
  | .project keys => applied "project" (commaSeparated (keys.map quoted))
  | .coalesce branches => applied "coalesce" (commaSeparated (Traversal.branchChars branches))
  | .constant value => applied "constant" value.groovyChars
  | .count => applied "count" []
  | .sum => applied "sum" []
  | .mean => applied "mean" []
  | .min => applied "min" []
  | .max => applied "max" []

/-- The characters of several steps, with a point before each. -/
def Step.pipelineChars : List Step → List Char
  | [] => []
  | step :: rest => '.' :: (step.groovyChars ++ Step.pipelineChars rest)

def Traversal.branchChars : List Traversal → List (List Char)
  | [] => []
  | t :: rest => t.groovyChars :: Traversal.branchChars rest

end

def Traversal.groovy (t : Traversal) : String :=
  String.ofList t.groovyChars

def Step.groovy (s : Step) : String :=
  String.ofList s.groovyChars

end GraphSelect
