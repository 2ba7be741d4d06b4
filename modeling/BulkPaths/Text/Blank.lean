/-!
White space and trimming. Beside the spaces of Unicode, the four information separators
U+001C to U+001F and the next-line control U+0085 are blank.
-/

namespace BulkPaths.Text

def isBlank (c : Char) : Bool :=
  let n := c.toNat
  (0x09 ≤ n && n ≤ 0x0D) || (0x1C ≤ n && n ≤ 0x20) || n == 0x85 || n == 0xA0 || n == 0x1680 ||
    (0x2000 ≤ n && n ≤ 0x200A) || n == 0x2028 || n == 0x2029 || n == 0x202F || n == 0x205F ||
    n == 0x3000

def trimLeft (cs : List Char) : List Char := cs.dropWhile isBlank

def trimRight (cs : List Char) : List Char := (cs.reverse.dropWhile isBlank).reverse

def trim (cs : List Char) : List Char := trimRight (trimLeft cs)

def strip (s : String) : String := String.ofList (trim s.toList)

/-- A text of white space alone, the empty text included. -/
def isBlankText (s : String) : Bool := (trim s.toList).isEmpty

end BulkPaths.Text
