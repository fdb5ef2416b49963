-- SUMMARY: Scanning: source text to tokens and lexical errors.
import Lox.Text.Lines
import Lox.Text.Quoted
import Lox.Token.Fragment
import Lox.Token.Word

/-!
## Scanning

A text is scanned line by line. A piece of text that is no token becomes an error token and is
reported; scanning goes on behind it. The token that ends the list stands on the line after the
last one.
-/

namespace Lox

/-- What a fragment is read as. Blanks and comments are read as nothing. -/
def Fragment.scan (line : Nat) (f : Fragment) : List Scanned :=
  let lexeme := String.ofList f.text
  match f.shape with
  | .blank | .comment => []
  | .closed body =>
    let value := String.ofList (unescape body)
    [.ok { kind := .string, lexeme, line, literal := some (.string value) }]
  | .unclosed => [.error ⟨.unterminatedString, lexeme, line⟩]
  | .mark kind => [.ok { kind, lexeme, line }]
  | .word => scanWord f.text line
  | .stray c => [.error ⟨.unexpectedCharacter c, lexeme, line⟩]

def scanLine (line : Nat) (cs : List Char) : List Scanned :=
  (fragments cs).flatMap (Fragment.scan line)

/-- Line numbers are 32-bit words, and stay at the last one. -/
def lastLine : Nat := Nat.pow 2 32 - 1

/-- The pieces of `lines`, the first of which has the number `line`. -/
def scanLines (line : Nat) : List (List Char) → List Scanned
  | [] => []
  | cs :: rest => scanLine (min line lastLine) cs ++ scanLines (line + 1) rest

/-- The outcome of scanning. -/
structure Scan where
  tokens : List Token
  errors : List LexicalError

def scan (source : String) : Scan :=
  let lines := textLines source
  let pieces := scanLines 1 lines
  { tokens := pieces.map Scanned.token ++ [.endOfFile (min (lines.length + 1) lastLine)]
    errors := pieces.filterMap Scanned.error? }

end Lox
