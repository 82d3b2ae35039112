/-!
# Blank characters

The characters that separate words, and what is left of a text without the blank characters
around it. All text of this library is cut at these characters and at no others.
-/

namespace TypeCoupling.Text

/-- The characters with the Unicode property `White_Space`. -/
def isBlank (c : Char) : Bool :=
  let n := c.toNat
  (0x09 ≤ n && n ≤ 0x0D) || n == 0x20 || n == 0x85 || n == 0xA0 || n == 0x1680
    || (0x2000 ≤ n && n ≤ 0x200A) || n == 0x2028 || n == 0x2029 || n == 0x202F
    || n == 0x205F || n == 0x3000

/-- The text without the longest final run of characters that satisfy `p`. -/
def dropEndWhile (p : Char → Bool) (s : List Char) : List Char :=
  (s.reverse.dropWhile p).reverse

def trimEnd (s : String) : String :=
  String.ofList (dropEndWhile isBlank s.toList)

def trim (s : String) : String :=
  String.ofList (dropEndWhile isBlank (s.toList.dropWhile isBlank))

/-- The last maximal run of characters that are not blank, empty if there is none. -/
def lastWord (s : String) : String :=
  let upToWord := s.toList.reverse.dropWhile isBlank
  String.ofList (upToWord.takeWhile (!isBlank ·)).reverse

end TypeCoupling.Text
