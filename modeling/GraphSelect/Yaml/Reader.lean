import GraphSelect.Yaml.Scalar

/-!
# Reading YAML text

The reader takes one document with block and flow mappings and sequences, scalars, comments and
document marks. Anchors, tags, block scalars and explicit keys are refused.

A block mapping or sequence consists of the entries that start in its own column; what belongs to an
entry stands further right. One exception is customary: a sequence that is the value of a key may
start in the column of the key. Inside flow collections columns do not count.

A key stands on one line with its colon. In a block, a blank or the end of the line follows the
colon.
-/

set_option autoImplicit false

namespace GraphSelect.Yaml

/-! ## Flow collections -/

mutual

/-- A value inside a flow collection. The block around the collection ends left of the column
`indent`. -/
def flowNode? (indent : Nat) : Nat → Spot → Option (Yaml × Spot)
  | 0, _ => none
  | fuel + 1, s =>
    if s.isEnd then none
    else match s.rest with
      | '[' :: _ => do
        let (items, s) ← flowItems? indent fuel s.next
        return (.seq items, s)
      | '\x7b' :: _ => do
        let (fields, s) ← flowFields? indent fuel s.next
        return (.map fields, s)
      | _ => scalar? true indent s

/-- A value inside a flow collection together with the value behind its colon, if it is a key. -/
def flowPair? (indent : Nat) : Nat → Spot → Option (Yaml × Option Yaml × Spot)
  | 0, _ => none
  | fuel + 1, s => do
    let (first, after) ← flowNode? indent fuel s
    let colon := after.flowToken
    match colon.rest with
    | ':' :: _ =>
      if !s.isKeyUpTo colon then none
      else
        let next := colon.next.flowToken
        if (next.rest.take 1).any fun c => c == ',' || c == ']' || c == '\x7d' then
          some (first, some missing, next)
        else do
          let (second, after) ← flowNode? indent fuel next
          return (first, some second, after.flowToken)
    | _ => return (first, none, colon)

/-- The items of a flow sequence up to its closing bracket. A pair is a mapping of its own. -/
def flowItems? (indent : Nat) : Nat → Spot → Option (List Yaml × Spot)
  | 0, _ => none
  | fuel + 1, s =>
    let s := s.flowToken
    match s.rest with
    | ']' :: _ => some ([], s.next)
    | _ => do
      let (first, second, s) ← flowPair? indent fuel s
      let item := match second with
        | some v => Yaml.map [(first, v)]
        | none => first
      match s.rest with
      | ',' :: _ => do
        let (items, s) ← flowItems? indent fuel s.next
        return (item :: items, s)
      | ']' :: _ => return ([item], s.next)
      | _ => none

/-- The fields of a flow mapping up to its closing brace. A key may stand without a value. -/
def flowFields? (indent : Nat) : Nat → Spot → Option (List (Yaml × Yaml) × Spot)
  | 0, _ => none
  | fuel + 1, s =>
    let s := s.flowToken
    match s.rest with
    | '\x7d' :: _ => some ([], s.next)
    | _ => do
      let (first, second, s) ← flowPair? indent fuel s
      let field := (first, second.getD missing)
      match s.rest with
      | ',' :: _ => do
        let (fields, s) ← flowFields? indent fuel s.next
        return (field :: fields, s)
      | '\x7d' :: _ => return ([field], s.next)
      | _ => none

end

/-- A value that is not a block: a flow collection or a scalar. -/
def inlineNode? (indent : Nat) (s : Spot) : Option (Yaml × Spot) :=
  match s.rest with
  | '[' :: _ => flowNode? indent (3 * s.rest.length + 3) s
  | '\x7b' :: _ => flowNode? indent (3 * s.rest.length + 3) s
  | _ => scalar? false indent s

/-! ## Blocks -/

/-- What stands before the colon of a block mapping, if it is a plain scalar. A plain scalar may go
on in the next line, but a key may not. -/
def plainKey (s : Spot) : Yaml × Spot :=
  let text := dropEndBlanks (plainLine false false s.rest)
  (.scalar (String.ofList text) true, ⟨s.rest.drop text.length, s.column + text.length, false⟩)

/-- A key of a block mapping and the spot after its colon, if a key stands here. -/
def key? (s : Spot) : Option (Yaml × Spot) := do
  let (key, after) ←
    if startsPlain false s.rest then some (plainKey s) else inlineNode? 0 s
  let blanks := after.rest.takeWhile isSpace
  let colon : Spot := ⟨after.rest.drop blanks.length, after.column + blanks.length, false⟩
  match colon.rest with
  | ':' :: rest => if endsWord rest && s.isKeyUpTo colon then some (key, colon.next) else none
  | _ => none

mutual

/-- A value that starts at a token. `indent` is one more than the column of the block around it,
zero at the outermost level. Behind a key or a document mark on the same line (`inline`) no block
may start. -/
def node? : Nat → Nat → Bool → Spot → Option (Yaml × Spot)
  | 0, _, _, _ => none
  | fuel + 1, indent, inline, s =>
    if s.isEntry then
      if inline then none
      else do
        let (items, s) ← entries? fuel s
        return (.seq items, s)
    else if (key? s).isSome then
      if inline then none
      else do
        let (fields, s) ← pairs? fuel s
        return (.map fields, s)
    else inlineNode? indent s

/-- The value of a key in the given column; the spot is after the colon. -/
def valueOf? : Nat → Nat → Spot → Option (Yaml × Spot)
  | 0, _, _ => none
  | fuel + 1, column, s =>
    let (next, crossed) := s.token
    if next.isEnd then some (missing, next)
    else if !crossed then node? fuel (column + 1) true next
    else if column < next.column then node? fuel (column + 1) false next
    else if column == next.column && next.isEntry then do
      let (items, s) ← entries? fuel next
      return (.seq items, s)
    else some (missing, next)

/-- The pairs of a block mapping, from its first key on. -/
def pairs? : Nat → Spot → Option (List (Yaml × Yaml) × Spot)
  | 0, _ => none
  | fuel + 1, s => do
    let column := s.column
    let (key, after) ← key? s
    let (v, after) ← valueOf? fuel column after
    let (next, _) := after.token
    if next.isEnd || next.column < column then return ([(key, v)], next)
    else if next.column == column then do
      let (fields, s) ← pairs? fuel next
      return ((key, v) :: fields, s)
    else none

/-- The items of a block sequence, from its first dash on. -/
def entries? : Nat → Spot → Option (List Yaml × Spot)
  | 0, _ => none
  | fuel + 1, s => do
    let column := s.column
    let (first, crossed) := Spot.token ⟨s.rest.drop 1, column + 1, true⟩
    let (item, after) ←
      if first.isEnd then pure (missing, first)
      else if !crossed || column < first.column then node? fuel (column + 1) false first
      else pure (missing, first)
    let (next, _) := after.token
    if next.isEnd || next.column < column then return ([item], next)
    else if next.column == column then
      if next.isEntry then do
        let (items, s) ← entries? fuel next
        return (item :: items, s)
      else return ([item], next)
    else none

end

/-! ## Documents -/

/-- Where the value of the document starts, and whether it stands on the line of the mark that opens
the document. A text may not start with the mark that ends one. -/
def documentStart? (cs : List Char) : Option (Spot × Bool) :=
  let first := (Spot.token ⟨cs, 0, true⟩).1
  if first.isMark '-' then
    let (start, crossed) := first.afterMark.token
    some (start, !crossed)
  else if first.isMark '.' then none
  else some (first, false)

/-- The value of the only document in a text. A text without a document is a missing value. -/
def parse? (text : String) : Option Yaml := do
  let cs := text.toList
  if !cs.all isAllowed then none
  let cs := unifyBreaks cs
  let fuel := 2 * cs.length + 2
  let (start, inline) ← documentStart? cs
  let (v, after) ← if start.isEnd then some (missing, start) else node? fuel 0 inline start
  if after.isFinished fuel then some v else none

end GraphSelect.Yaml
