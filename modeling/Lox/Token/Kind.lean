-- SUMMARY: Kinds of tokens with their names, and the reserved words.

/-!
## Token kinds

A kind has two names: `name` stands in token listings, `label` in messages.
-/

namespace Lox

inductive Kind where
  | leftParen | rightParen | leftBrace | rightBrace
  | comma | dot | semicolon
  | plus | minus | star | slash
  | bang | bangEqual | equal | equalEqual
  | less | lessEqual | greater | greaterEqual
  | and | or
  | number | string | identifier
  | kwElse | kwFalse | kwFun | kwFor | kwIf | kwNil | kwPrint | kwReturn | kwTrue | kwVar | kwWhile
  | error
  | endOfFile
  deriving DecidableEq, Repr

namespace Kind

/-- All kinds in their order. -/
def all : List Kind :=
  [leftParen, rightParen, leftBrace, rightBrace, comma, dot, semicolon, plus, minus, star, slash,
    bang, bangEqual, equal, equalEqual, less, lessEqual, greater, greaterEqual, and, or, number,
    string, identifier, kwElse, kwFalse, kwFun, kwFor, kwIf, kwNil, kwPrint, kwReturn, kwTrue,
    kwVar, kwWhile, error, endOfFile]

/-- The place of a kind in `all`. -/
def index (k : Kind) : Nat :=
  all.idxOf k

theorem getElem?_all_index (k : Kind) : all[k.index]? = some k := by
  cases k <;> decide

def name : Kind → String
  | leftParen => "LeftParen"
  | rightParen => "RightParen"
  | leftBrace => "LeftBrace"
  | rightBrace => "RightBrace"
  | comma => "Comma"
  | dot => "Dot"
  | semicolon => "Semicolon"
  | plus => "Plus"
  | minus => "Minus"
  | star => "Star"
  | slash => "Slash"
  | bang => "Bang"
  | bangEqual => "BangEqual"
  | equal => "Equal"
  | equalEqual => "EqualEqual"
  | less => "Less"
  | lessEqual => "LessEqual"
  | greater => "Greater"
  | greaterEqual => "GreaterEqual"
  | and => "And"
  | or => "Or"
  | number => "Number"
  | string => "String"
  | identifier => "Identifier"
  | kwElse => "Else"
  | kwFalse => "False"
  | kwFun => "Fun"
  | kwFor => "For"
  | kwIf => "If"
  | kwNil => "Nil"
  | kwPrint => "Print"
  | kwReturn => "Return"
  | kwTrue => "True"
  | kwVar => "Var"
  | kwWhile => "While"
  | error => "Error"
  | endOfFile => "Eof"

def ofName? (s : String) : Option Kind :=
  all.find? fun k => k.name == s

theorem ofName?_name (k : Kind) : ofName? k.name = some k := by
  cases k <;> decide

def label : Kind → String
  | leftParen => "("
  | rightParen => ")"
  | leftBrace => "\x7b"
  | rightBrace => "\x7d"
  | comma => ","
  | dot => "."
  | semicolon => ";"
  | plus => "+"
  | minus => "-"
  | star => "*"
  | slash => "/"
  | bang => "!"
  | bangEqual => "!="
  | equal => "="
  | equalEqual => "=="
  | less => "<"
  | lessEqual => "<="
  | greater => ">"
  | greaterEqual => ">="
  | and => "and"
  | or => "or"
  | number => "number"
  | string => "string"
  | identifier => "identifier"
  | kwElse => "else"
  | kwFalse => "false"
  | kwFun => "fun"
  | kwFor => "for"
  | kwIf => "if"
  | kwNil => "nil"
  | kwPrint => "print"
  | kwReturn => "return"
  | kwTrue => "true"
  | kwVar => "var"
  | kwWhile => "while"
  | error => "invalid token"
  | endOfFile => "end of file"

/-- The kind of a reserved word. -/
def keyword? (word : String) : Option Kind :=
  match word with
  | "and" => some and
  | "else" => some kwElse
  | "false" => some kwFalse
  | "fun" => some kwFun
  | "for" => some kwFor
  | "if" => some kwIf
  | "nil" => some kwNil
  | "or" => some or
  | "print" => some kwPrint
  | "return" => some kwReturn
  | "true" => some kwTrue
  | "var" => some kwVar
  | "while" => some kwWhile
  | _ => none

/-- The operators and punctuation marks of one character. -/
def ofChar? (c : Char) : Option Kind :=
  match c with
  | '(' => some leftParen
  | ')' => some rightParen
  | '\x7b' => some leftBrace
  | '\x7d' => some rightBrace
  | ',' => some comma
  | ';' => some semicolon
  | '+' => some plus
  | '-' => some minus
  | '*' => some star
  | '/' => some slash
  | '!' => some bang
  | '=' => some equal
  | '<' => some less
  | '>' => some greater
  | _ => none

/-- The operators of two characters. -/
def ofPair? (c d : Char) : Option Kind :=
  match c, d with
  | '!', '=' => some bangEqual
  | '=', '=' => some equalEqual
  | '<', '=' => some lessEqual
  | '>', '=' => some greaterEqual
  | '&', '&' => some and
  | '|', '|' => some or
  | _, _ => none

end Kind

end Lox
