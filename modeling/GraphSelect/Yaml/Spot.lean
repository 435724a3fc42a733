/-!
# Places in a YAML text

Structure in blocks is given by columns, so a reader carries the column of the next character along
with the rest of the text. This module says what counts as the end of a line, what may stand between
two tokens, and where a document ends.

Tabs are white space inside a line and inside flow collections. Where a block could start, that is
at the front of a line and after the dash of an entry, they are not: there columns count.
-/

set_option autoImplicit false

namespace GraphSelect.Yaml

/-- The rest of the text and the column that it starts in. -/
structure Spot where
  rest : List Char
  column : Nat
  -- Whether a block may start here.
  fresh : Bool

/-- One character further on the same line, behind a token. -/
def Spot.next (s : Spot) : Spot :=
  ⟨s.rest.drop 1, s.column + 1, false⟩

/-! ## Characters -/

/-- Whether a text may hold this character: tabs, line ends and all that can be printed. -/
def isAllowed (c : Char) : Bool :=
  let n := c.toNat
  c == '\t' || c == '\n' || c == '\r' || (0x20 ≤ n && n ≤ 0x7E) || n == 0x85 ||
    (0xA0 ≤ n && n ≤ 0xFFFD) || 0x10000 ≤ n

/-- Lines end in one way: a carriage return or a next-line character counts as a line feed, and so
does a carriage return together with the line feed after it. -/
def unifyBreaks : List Char → List Char
  | [] => []
  | '\r' :: '\n' :: rest => '\n' :: unifyBreaks rest
  | '\r' :: rest => '\n' :: unifyBreaks rest
  | c :: rest => (if c.toNat == 0x85 then '\n' else c) :: unifyBreaks rest

/-- The end of a line: a line feed, or Unicode's line or paragraph separator. -/
def isBreak (c : Char) : Bool :=
  c == '\n' || c.toNat == 0x2028 || c.toNat == 0x2029

def isSpace (c : Char) : Bool :=
  c == ' ' || c == '\t'

/-- A blank, the end of a line or the end of the text. -/
def endsWord : List Char → Bool
  | [] => true
  | c :: _ => isSpace c || isBreak c

/-- The mark of byte order, which may stand at the front of a line. -/
def isByteOrderMark (c : Char) : Bool :=
  c.toNat == 0xFEFF

/-- The characters that structure flow collections. -/
def isFlowMark (c : Char) : Bool :=
  c == ',' || c == '[' || c == ']' || c == '\x7b' || c == '\x7d'

/-! ## Between tokens -/

/-- The first character that is neither white space nor in a comment, and whether a line ended
before it. A tab where a block may start is not skipped, and no token starts with one. -/
def toToken (flow comment crossed fresh : Bool) (column : Nat) : List Char → Spot × Bool
  | [] => (⟨[], column, fresh⟩, crossed)
  | c :: rest =>
    if isBreak c then toToken flow false true (fresh || !flow) 0 rest
    else if comment then toToken flow true crossed fresh (column + 1) rest
    else if isByteOrderMark c && column == 0 then toToken flow false crossed fresh 1 rest
    else if c == ' ' || (c == '\t' && (flow || !fresh)) then
      toToken flow false crossed fresh (column + 1) rest
    else if c == '#' then toToken flow true crossed fresh (column + 1) rest
    else (⟨c :: rest, column, fresh⟩, crossed)

/-- The next token in a block, and whether a line ended before it. -/
def Spot.token (s : Spot) : Spot × Bool :=
  toToken false false false s.fresh s.column s.rest

/-- The next token inside a flow collection. -/
def Spot.flowToken (s : Spot) : Spot :=
  (toToken true false false s.fresh s.column s.rest).1

/-- The white space here: the line ends in it, and the spot behind it. A tab at the front of a line
must stand in the column `indent` or right of it. -/
def gap? (indent : Nat) (breaks : List Char) (column : Nat) :
    List Char → Option (List Char × Spot)
  | [] => some (breaks.reverse, ⟨[], column, !breaks.isEmpty⟩)
  | c :: rest =>
    if isBreak c then gap? indent (c :: breaks) 0 rest
    else if c == '\t' && !breaks.isEmpty && column < indent then none
    else if isSpace c then gap? indent breaks (column + 1) rest
    else some (breaks.reverse, ⟨c :: rest, column, !breaks.isEmpty⟩)

/-! ## Documents -/

/-- Whether a document mark, made of three times the given character, stands here. -/
def Spot.isMark (c : Char) (s : Spot) : Bool :=
  s.column == 0 && s.rest.take 3 == [c, c, c] && endsWord (s.rest.drop 3)

def Spot.afterMark (s : Spot) : Spot :=
  ⟨s.rest.drop 3, 3, false⟩

/-- Whether a mark of either kind stands here. -/
def Spot.isAnyMark (s : Spot) : Bool :=
  s.isMark '-' || s.isMark '.'

/-- Whether the document ends here. -/
def Spot.isEnd (s : Spot) : Bool :=
  s.rest.isEmpty || s.isAnyMark

/-- Whether nothing but white space, comments and end marks is left; `fuel` bounds the marks. -/
def Spot.isFinished : Nat → Spot → Bool
  | 0, _ => false
  | fuel + 1, s =>
    let next := s.token.1
    if next.isMark '.' then next.afterMark.isFinished fuel else next.rest.isEmpty

/-- Whether an entry of a block sequence starts here. -/
def Spot.isEntry (s : Spot) : Bool :=
  match s.rest with
  | '-' :: rest => endsWord rest
  | _ => false

/-- Whether what stands between two spots can be a key: on one line, and not longer than 1024
characters. -/
def Spot.isKeyUpTo (s colon : Spot) : Bool :=
  let length := s.rest.length - colon.rest.length
  length ≤ 1024 && !(s.rest.take length).any isBreak

end GraphSelect.Yaml
