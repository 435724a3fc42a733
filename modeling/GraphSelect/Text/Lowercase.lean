import GraphSelect.Text.Casing

/-!
# Lowercase texts

Labels are compared after Unicode lowercasing. Almost every character is mapped on its own; two are
not. A dotted capital I becomes two characters, and a capital sigma becomes the final form `ς` at
the end of a word and `σ` elsewhere, where the end of a word is Unicode's condition `Final_Sigma`:
a cased letter stands before it and none after it, characters with the property `Case_Ignorable`
passed over on both sides.

ASCII letters are mapped without a look into the tables. That is what makes two texts which differ
only in the case of ASCII letters lowercase to the same text.
-/

set_option autoImplicit false

namespace GraphSelect.Text

/-- The code point that a run maps `n` to, if the run holds `n`. -/
def CaseRun.image? (run : CaseRun) (n : Nat) : Option Nat :=
  if run.first ≤ n && n ≤ run.last && (n - run.first) % run.stride == 0 then
    some (run.image + (n - run.first))
  else
    none

/-- Uppercase, lowercase or titlecase. -/
def isCased (c : Char) : Bool :=
  if c.toNat < 128 then c.isAlpha else inRanges casedRanges c.toNat

/-- Passed over when the neighbours of a sigma are looked for. -/
def isCaseIgnorable (c : Char) : Bool :=
  if c.toNat < 128 then
    [0x27, 0x2E, 0x3A, 0x5E, 0x60].contains c.toNat
  else
    inRanges caseIgnorableRanges c.toNat

/-- The lowercase form of a character taken on its own. -/
def lowerChar (c : Char) : List Char :=
  if c.toNat < 128 then [c.toLower]
  else if c == 'İ' then ['i', Char.ofNat 0x307]
  else match lowercaseRuns.findSome? (CaseRun.image? · c.toNat) with
    | some n => [Char.ofNat n]
    | none => [c]

/-- Whether the first character that is not passed over is cased. -/
def startsCased (cs : List Char) : Bool :=
  match cs.dropWhile isCaseIgnorable with
  | c :: _ => isCased c
  | [] => false

/-- The lowercase form of `cs` standing after the characters `before`, nearest first. -/
def lowerFrom (before : List Char) : List Char → List Char
  | [] => []
  | c :: rest =>
    let image :=
      if c == 'Σ' then
        if startsCased before && !startsCased rest then ['ς'] else ['σ']
      else
        lowerChar c
    image ++ lowerFrom (c :: before) rest

def lower (s : String) : String :=
  String.ofList (lowerFrom [] s.toList)

/-- Equality of texts up to the case of ASCII letters. -/
def eqIgnoringCase (a b : String) : Bool :=
  a.toList.map Char.toLower == b.toList.map Char.toLower

end GraphSelect.Text
