/-!
# White space and trimming

Texts given by a person (a column type, a filter placement) are trimmed before they are read. The
class of characters that trimming removes is Unicode's `White_Space` property, which is wider than
the blanks of ASCII: a no-break space or an ideographic space goes too, a zero-width space stays.
-/

set_option autoImplicit false

namespace GraphSelect.Text

/-- A character with Unicode's `White_Space` property. -/
def isBlank (c : Char) : Bool :=
  let n := c.toNat
  (9 ≤ n && n ≤ 13) || n == 0x20 || n == 0x85 || n == 0xA0 || n == 0x1680 ||
    (0x2000 ≤ n && n ≤ 0x200A) || n == 0x2028 || n == 0x2029 || n == 0x202F || n == 0x205F ||
    n == 0x3000

/-- The characters without those at both ends that satisfy `p`. -/
def trimBoth (p : Char → Bool) (cs : List Char) : List Char :=
  ((cs.dropWhile p).reverse.dropWhile p).reverse

def trim (s : String) : String :=
  String.ofList (trimBoth isBlank s.toList)

end GraphSelect.Text
