import GraphSelect.Yaml.Basic
import GraphSelect.Yaml.Spot

/-!
# YAML scalars

A scalar is plain, single-quoted or double-quoted, and each kind may go over several lines. A
single line end inside it becomes a blank; of several, the first is dropped. White space around line
ends is dropped.
-/

set_option autoImplicit false

namespace GraphSelect.Yaml

/-- What stands for line ends inside a scalar. A separator that is not a line feed is kept. -/
def folded : List Char → List Char
  | ['\n'] => [' ']
  | '\n' :: more => more
  | breaks => breaks

/-! ## Plain scalars -/

/-- Whether a plain scalar may start with these characters. -/
def startsPlain (flow : Bool) : List Char → Bool
  | [] => false
  | c :: rest =>
    if c == '-' then !endsWord rest
    else if c == '?' || c == ':' then !flow && !endsWord rest
    else !(endsWord [c] || isFlowMark c || "#&*!|>'\"%@`".toList.contains c)

/-- Whether a colon stands here that touches a mark of a flow collection. -/
def isTightColon : List Char → Bool
  | ':' :: c :: _ => isFlowMark c || c == '?'
  | _ => false

/-- The part of a plain scalar that stands on one line, with the blanks at its end. `afterBlank`
says that a blank stands before the first character. -/
def plainLine (flow afterBlank : Bool) : List Char → List Char
  | [] => []
  | c :: rest =>
    if isBreak c then []
    else if c == ':' && endsWord rest then []
    else if flow && (isFlowMark c || isTightColon (c :: rest)) then []
    else if c == '#' && afterBlank then []
    else c :: plainLine flow (isSpace c) rest

/-- The characters without the blanks at their end. -/
def dropEndBlanks (cs : List Char) : List Char :=
  (cs.reverse.dropWhile isSpace).reverse

/-- Whether a plain scalar goes on in a new line. In a block the line must start in the column
`indent` or right of it. -/
def goesOn (flow : Bool) (indent : Nat) (s : Spot) : Bool :=
  !s.isEnd && s.rest.head? != some '#' && (flow || indent ≤ s.column) &&
    !(plainLine flow false s.rest).isEmpty

/-- A plain scalar over one line or several, and the spot behind it and the white space after it.
The block around the scalar ends left of the column `indent`; that binds tabs in flow collections
too. -/
def plain? (flow : Bool) (indent : Nat) : Nat → Spot → Option (List Char × Spot)
  | 0, _ => none
  | fuel + 1, s => do
    let text := dropEndBlanks (plainLine flow false s.rest)
    let (breaks, next) ← gap? indent [] (s.column + text.length) (s.rest.drop text.length)
    if !breaks.isEmpty && goesOn flow indent next then do
      let (more, after) ← plain? flow indent fuel next
      return (text ++ folded breaks ++ more, after)
    else return (text, next)

/-! ## Quoted scalars -/

/-- White space inside quotes: what it stands for, and the spot behind it. Blanks inside a line
stay. No document mark may follow. -/
def quotedGap? (s : Spot) : Option (List Char × Spot) := do
  let (breaks, next) ← gap? 0 [] s.column s.rest
  if next.isAnyMark then none
  else if breaks.isEmpty then some (s.rest.takeWhile isSpace, next)
  else some (folded breaks, next)

/-- The rest of a single-quoted scalar: a quote is written twice. -/
def singleQuoted? : Nat → List Char → Spot → Option (List Char × Spot)
  | 0, _, _ => none
  | fuel + 1, done, s =>
    match s.rest with
    | [] => none
    | c :: rest =>
      if c.toNat == 0x27 then
        match rest with
        | d :: rest =>
          if d.toNat == 0x27 then singleQuoted? fuel (c :: done) ⟨rest, s.column + 2, false⟩
          else some (done.reverse, s.next)
        | [] => some (done.reverse, s.next)
      else if endsWord [c] then do
        let (text, next) ← quotedGap? s
        singleQuoted? fuel (text.reverse ++ done) next
      else singleQuoted? fuel (c :: done) s.next

/-- The value of the given number of hexadecimal digits, and what follows them. -/
def hex? : Nat → Nat → List Char → Option (Nat × List Char)
  | 0, n, cs => some (n, cs)
  | count + 1, n, c :: cs => do
    let d ← digit? c
    hex? count (16 * n + d) cs
  | _ + 1, _, [] => none

/-- The code point that a letter after a backslash stands for. -/
def escape? (c : Char) : Option Nat :=
  match c with
  | '0' => some 0
  | 'a' => some 7
  | 'b' => some 8
  | 't' => some 9
  | '\t' => some 9
  | 'n' => some 10
  | 'v' => some 11
  | 'f' => some 12
  | 'r' => some 13
  | 'e' => some 27
  | ' ' => some 32
  | '"' => some 34
  | '/' => some 47
  | '\\' => some 92
  | 'N' => some 0x85
  | '_' => some 0xA0
  | 'L' => some 0x2028
  | 'P' => some 0x2029
  | _ => none

/-- How many hexadecimal digits follow a letter after a backslash. -/
def escapeWidth? (c : Char) : Option Nat :=
  match c with
  | 'x' => some 2
  | 'u' => some 4
  | 'U' => some 8
  | _ => none

/-- The rest of a double-quoted scalar. A backslash at the end of a line takes that line end away;
those after it stay. -/
def doubleQuoted? : Nat → List Char → Spot → Option (List Char × Spot)
  | 0, _, _ => none
  | fuel + 1, done, s =>
    match s.rest with
    | [] => none
    | '"' :: _ => some (done.reverse, s.next)
    | '\\' :: c :: rest =>
      if isBreak c then do
        let (breaks, next) ← gap? 0 [] 0 rest
        if next.isAnyMark then none else doubleQuoted? fuel (breaks.reverse ++ done) next
      else match escapeWidth? c with
        | some width => do
          let (n, rest) ← hex? width 0 rest
          if n.isValidChar then
            doubleQuoted? fuel (Char.ofNat n :: done) ⟨rest, s.column + 2 + width, false⟩
          else none
        | none => do
          let n ← escape? c
          doubleQuoted? fuel (Char.ofNat n :: done) ⟨rest, s.column + 2, false⟩
    | c :: _ =>
      if endsWord [c] then do
        let (text, next) ← quotedGap? s
        doubleQuoted? fuel (text.reverse ++ done) next
      else doubleQuoted? fuel (c :: done) s.next

/-- A quoted scalar, if a quote stands here. -/
def quoted? (s : Spot) : Option (Option (Yaml × Spot)) :=
  let found := match s.rest with
    | [] => none
    | c :: rest =>
      if c == '"' then some (doubleQuoted? (rest.length + 1) [] s.next)
      else if c.toNat == 0x27 then some (singleQuoted? (rest.length + 1) [] s.next)
      else none
  found.map fun result => result.map fun (text, after) =>
    (.scalar (String.ofList text) false, after)

/-- A scalar of any kind. The colon after a plain one in a flow collection may not touch what
follows it. -/
def scalar? (flow : Bool) (indent : Nat) (s : Spot) : Option (Yaml × Spot) :=
  match quoted? s with
  | some found => found
  | none =>
    if startsPlain flow s.rest then do
      let (text, after) ← plain? flow indent (s.rest.length + 1) s
      if flow && isTightColon after.rest then none
      else some (.scalar (String.ofList text) true, after)
    else none

end GraphSelect.Yaml
