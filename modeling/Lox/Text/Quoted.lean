-- SUMMARY: Strings between quotes: how a string is written, and how a written one is read.
import Lox.Text.GraphemeExtend

/-!
## Quoted strings

`quoted` writes a string on one line, between double quotes: a quote, a backslash, a line break, a
return, a tab and a null have escapes of two characters, a character that would not show is written
by its code point. `unescape` reads the inside of a quoted string; it knows five escapes and leaves
any other backslash as it is.
-/

namespace Lox

/-- A character by its code point. -/
def escapeCode (c : Char) : List Char :=
  '\\' :: 'u' :: '\x7b' :: Nat.toDigits 16 c.toNat ++ ['\x7d']

def escapeChar (c : Char) : List Char :=
  match c with
  | '"' => ['\\', '"']
  | '\\' => ['\\', '\\']
  | '\n' => ['\\', 'n']
  | '\r' => ['\\', 'r']
  | '\t' => ['\\', 't']
  | '\x00' => ['\\', '0']
  | c => if isGraphemeExtend c || !isPrintable c then escapeCode c else [c]

def escape (cs : List Char) : List Char :=
  cs.flatMap escapeChar

/-- A string as it is written in listings and trees. -/
def quoted (s : String) : String :=
  String.ofList ('"' :: escape s.toList ++ ['"'])

/-- The character that a backslash and `c` stand for. -/
def unescapeChar? (c : Char) : Option Char :=
  match c with
  | '"' => some '"'
  | '\\' => some '\\'
  | 'n' => some '\n'
  | 'r' => some '\r'
  | 't' => some '\t'
  | _ => none

/-- The text that the inside of a quoted string stands for. -/
def unescape : List Char → List Char
  | [] => []
  | ['\\'] => ['\\']
  | '\\' :: c :: cs =>
    match unescapeChar? c with
    | some d => d :: unescape cs
    | none => '\\' :: c :: unescape cs
  | c :: cs => c :: unescape cs

end Lox
