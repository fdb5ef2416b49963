-- SUMMARY: White space in the sense of Unicode, and blank lines.

/-!
## Blanks

The characters with the property White_Space. A line of nothing else is blank.
-/

namespace Lox

def isWhiteSpace (c : Char) : Bool :=
  let code := c.toNat
  (0x9 ≤ code && code ≤ 0xD) || code == 0x20 || code == 0x85 || code == 0xA0 || code == 0x1680
    || (0x2000 ≤ code && code ≤ 0x200A) || code == 0x2028 || code == 0x2029 || code == 0x202F
    || code == 0x205F || code == 0x3000

def isBlankLine (s : String) : Bool :=
  s.toList.all isWhiteSpace

end Lox
