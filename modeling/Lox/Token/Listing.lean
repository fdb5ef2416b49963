-- SUMMARY: Token listings: one line per token.
import Lox.Text.Quoted
import Lox.Token.Basic

/-!
## Token listings

A line of a listing shows one token: its line number, right-aligned to four places, its kind, its
text in quotes and the literal it stands for.
-/

namespace Lox

def rightAligned (width : Nat) (s : String) : String :=
  String.ofList (List.replicate (width - s.length) ' ') ++ s

def Token.listed (t : Token) : String :=
  rightAligned 4 (toString t.line) ++ " " ++ t.kind.name ++ " " ++ quoted t.lexeme
    ++ (match t.literal with
      | some l => " = " ++ l.text
      | none => "")

def listing (ts : List Token) : String :=
  String.join (ts.map fun t => t.listed ++ "\n")

end Lox
