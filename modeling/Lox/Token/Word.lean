-- SUMMARY: Reading words: reserved words, numerals, identifiers and dotted words.
import Lox.Token.Error

/-!
## Words

A word is read as a whole if it is a reserved word or a numeral. Otherwise it is taken apart at its
dots, and each part is read on its own: as a reserved word, a numeral or an identifier. Any other
part is an error.
-/

namespace Lox

/-- A piece of source text as it was read. -/
abbrev Scanned := Except LexicalError Token

namespace Scanned

/-- The token for a piece of text. -/
def token : Scanned → Token
  | .ok t => t
  | .error e => e.token

def error? : Scanned → Option LexicalError
  | .ok _ => none
  | .error e => some e

end Scanned

def isIdentifierStart (c : Char) : Bool :=
  c.isAlpha || c == '_'

def isIdentifierChar (c : Char) : Bool :=
  c.isAlphanum || c == '_'

/-- Identifiers are made of letters, digits and underscores of ASCII. -/
def isIdentifier : List Char → Bool
  | [] => false
  | c :: cs => isIdentifierStart c && cs.all isIdentifierChar

/-- What is wrong with a word that is not empty, and no token either. -/
def wordFault (word : List Char) : LexicalError.Cause :=
  match word with
  | [] => .invalidNumber
  | c :: _ =>
    if c.isDigit then
      .invalidNumber
    else
      .unexpectedCharacter ((word.find? fun d => !isIdentifierChar d).getD c)

/-- Reads a reserved word or a numeral. -/
def scanWhole? (word : List Char) (line : Nat) : Option Token :=
  let lexeme := String.ofList word
  match Kind.keyword? lexeme with
  | some kind => some { kind, lexeme, line }
  | none =>
    (Number.read? word).map fun x => { kind := .number, lexeme, line, literal := some (.number x) }

/-- Reads a part of a word, without dots. -/
def scanPart (word : List Char) (line : Nat) : Scanned :=
  match scanWhole? word line with
  | some t => .ok t
  | none =>
    if isIdentifier word then
      .ok { kind := .identifier, lexeme := String.ofList word, line }
    else
      .error ⟨wordFault word, String.ofList word, line⟩

/-- The parts of a word between its dots. -/
def dotParts : List Char → List (List Char)
  | [] => [[]]
  | c :: cs =>
    if c = '.' then
      [] :: dotParts cs
    else
      match dotParts cs with
      | [] => [[c]]
      | part :: parts => (c :: part) :: parts

def dotToken (line : Nat) : Token :=
  { kind := .dot, lexeme := ".", line }

/-- A part may be empty, before, between or behind dots; then there is nothing to read. -/
def scanPart? (word : List Char) (line : Nat) : List Scanned :=
  if word.isEmpty then [] else [scanPart word line]

def scanParts (parts : List (List Char)) (line : Nat) : List Scanned :=
  match parts with
  | [] => []
  | part :: parts =>
    scanPart? part line ++ parts.flatMap fun part => .ok (dotToken line) :: scanPart? part line

def scanWord (word : List Char) (line : Nat) : List Scanned :=
  match scanWhole? word line with
  | some t => [.ok t]
  | none => scanParts (dotParts word) line

end Lox
