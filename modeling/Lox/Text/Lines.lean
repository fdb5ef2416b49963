-- SUMMARY: Splitting text or bytes into lines.

/-!
## Lines

A line ends with a line break, and a return directly before the break belongs to the ending. What
follows the last break is a line too unless it is empty, and keeps a return at its end.
-/

namespace Lox

variable {α : Type} [BEq α]

/-- A line without the return that is part of its ending. The line comes last character first. -/
def dropReturn (ret : α) : List α → List α
  | [] => []
  | c :: line => if c == ret then line else c :: line

/-- The lines of `line.reverse ++ cs`, where `line` holds no break. -/
def linesFrom (brk ret : α) (line : List α) : List α → List (List α)
  | [] => if line.isEmpty then [] else [line.reverse]
  | c :: cs =>
    if c == brk then
      (dropReturn ret line).reverse :: linesFrom brk ret [] cs
    else
      linesFrom brk ret (c :: line) cs

def linesBetween (brk ret : α) (cs : List α) : List (List α) :=
  linesFrom brk ret [] cs

/-- The lines of a text. -/
def textLines (s : String) : List (List Char) :=
  linesBetween '\n' '\r' s.toList

/-- The lines of a sequence of bytes. -/
def byteLines (bytes : List UInt8) : List (List UInt8) :=
  linesBetween 10 13 bytes

end Lox
