import JsonQuery.Number.Layout
import JsonQuery.Text.Position

namespace JsonQuery
open Number

-- Every token that has one spelling only.
inductive Symbol where
  | dot | star | at | dollar | ampersand | comma | colon | assign
  | leftBracket | rightBracket | flatten | filter
  | leftBrace | rightBrace | leftParen | rightParen
  | pipe | or | and | not
  | equal | notEqual | less | lessEqual | greater | greaterEqual
deriving DecidableEq

namespace Symbol

def text : Symbol → String
  | .dot => "."
  | .star => "*"
  | .at => "@"
  | .dollar => "$"
  | .ampersand => "&"
  | .comma => ","
  | .colon => ":"
  | .assign => "="
  | .leftBracket => "["
  | .rightBracket => "]"
  | .flatten => "[]"
  | .filter => "[?"
  | .leftBrace => "\x7b"
  | .rightBrace => "\x7d"
  | .leftParen => "("
  | .rightParen => ")"
  | .pipe => "|"
  | .or => "||"
  | .and => "&&"
  | .not => "!"
  | .equal => "=="
  | .notEqual => "!="
  | .less => "<"
  | .lessEqual => "<="
  | .greater => ">"
  | .greaterEqual => ">="

-- The longest spelling wins.
def scan? : List Char → Option Symbol
  | '.' :: _ => some .dot
  | '*' :: _ => some .star
  | '@' :: _ => some .at
  | '$' :: _ => some .dollar
  | ',' :: _ => some .comma
  | ':' :: _ => some .colon
  | '(' :: _ => some .leftParen
  | ')' :: _ => some .rightParen
  | '\x7b' :: _ => some .leftBrace
  | '\x7d' :: _ => some .rightBrace
  | ']' :: _ => some .rightBracket
  | '[' :: ']' :: _ => some .flatten
  | '[' :: '?' :: _ => some .filter
  | '[' :: _ => some .leftBracket
  | '|' :: '|' :: _ => some .or
  | '|' :: _ => some .pipe
  | '&' :: '&' :: _ => some .and
  | '&' :: _ => some .ampersand
  | '!' :: '=' :: _ => some .notEqual
  | '!' :: _ => some .not
  | '=' :: '=' :: _ => some .equal
  | '=' :: _ => some .assign
  | '<' :: '=' :: _ => some .lessEqual
  | '<' :: _ => some .less
  | '>' :: '=' :: _ => some .greaterEqual
  | '>' :: _ => some .greater
  | _ => none

end Symbol

-- Payloads are decoded: escapes are gone, and a literal is the text between its
-- marks, known to be a document. `let` and `in` are words like any other here.
inductive TokenKind where
  | integer (n : Int)
  | float (x : Binary64)
  | rawString (s : String)
  | literal (text : String)
  | identifier (name : String)
  | quotedIdentifier (name : String)
  | variable (name : String)
  | symbol (s : Symbol)
  | ending
deriving DecidableEq

namespace TokenKind

def describe : TokenKind → String
  | .integer n => "number " ++ toString n
  | .float x => "number " ++ Layout.message.render x
  | .rawString s => "raw string '" ++ s ++ "'"
  | .literal text => "literal \x60" ++ text ++ "\x60"
  | .identifier name => "identifier " ++ name
  | .quotedIdentifier name => "quoted identifier \"" ++ name ++ "\""
  | .variable name => "variable $" ++ name
  | .symbol s => "'" ++ s.text ++ "'"
  | .ending => "end of expression"

end TokenKind

structure Token where
  kind : TokenKind
  text : String
  position : Position
deriving DecidableEq

-- The three forms that run up to a closing mark.
inductive Enclosed where
  | quotedIdentifier
  | rawString
  | literal
deriving DecidableEq

def Enclosed.describe : Enclosed → String
  | .quotedIdentifier => "quoted identifier"
  | .rawString => "raw string"
  | .literal => "JSON literal"

inductive LexFault where
  | unterminated (form : Enclosed)
  | badEscape (letter : Char)
  | badUnicodeEscape
  | loneSurrogate
  | badLiteral
  | missingDigit
  | outOfRange (numeral : String)
  | stray (c : Char)
deriving DecidableEq

def LexFault.describe : LexFault → String
  | .unterminated form => "unterminated " ++ form.describe
  | .badEscape letter => "invalid escape sequence \\" ++ letter.toString
  | .badUnicodeEscape => "invalid unicode escape"
  | .loneSurrogate => "unpaired surrogate in unicode escape"
  | .badLiteral => "invalid JSON literal"
  | .missingDigit => "expected digit after '-'"
  | .outOfRange numeral => "number " ++ numeral ++ " is out of range"
  | .stray c => "unexpected character '" ++ c.toString ++ "'"

structure LexError where
  fault : LexFault
  position : Position
deriving DecidableEq

def LexError.describe (e : LexError) : String :=
  e.fault.describe ++ " at " ++ e.position.describe

end JsonQuery
