/-!
# Blank characters and stripping

The blank characters are those with the Unicode property `White_Space`. `strip p` drops the
longest runs of `p` at both ends of a text, and `trim` is that for blanks.
-/

namespace ThreeAddress.Text

/-- The code points with the property `White_Space`. -/
def isBlank (c : Char) : Bool :=
  let n := c.toNat
  (0x9 ≤ n && n ≤ 0xD) || n == 0x20 || n == 0x85 || n == 0xA0 || n == 0x1680 ||
    (0x2000 ≤ n && n ≤ 0x200A) || n == 0x2028 || n == 0x2029 || n == 0x202F || n == 0x205F ||
    n == 0x3000

def stripEnd (p : Char → Bool) (cs : List Char) : List Char :=
  (cs.reverse.dropWhile p).reverse

def strip (p : Char → Bool) (cs : List Char) : List Char :=
  stripEnd p (cs.dropWhile p)

def trim (cs : List Char) : List Char :=
  strip isBlank cs

/-- The maximal runs without blanks, as words are separated on a command line. -/
def words (cs : List Char) : List (List Char) :=
  (cs.splitOnP isBlank).filter (· ≠ [])

end ThreeAddress.Text
