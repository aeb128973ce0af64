import JsonQuery.Token.Basic

namespace JsonQuery
open Number

-- What the grammar allows where another token stands.
inductive Expected where
  | expression
  | afterDot
  | slicePart
  | listEnd
  | argumentsEnd
  | hashEnd
  | hashKey
  | binding
  | inWord
  | symbol (s : Symbol)
  | ending
deriving DecidableEq

def Expected.describe : Expected → String
  | .expression => "an expression"
  | .afterDot => "identifier, '*', '[' or '\x7b' after '.'"
  | .slicePart => "integer, ':' or ']'"
  | .listEnd => "',' or ']'"
  | .argumentsEnd => "',' or ')'"
  | .hashEnd => "',' or '\x7d'"
  | .hashKey => "identifier as multi-select hash key"
  | .binding => "variable binding ($name = expression)"
  | .inWord => "'in' after let bindings"
  | .symbol s => (TokenKind.symbol s).describe
  | .ending => "end of expression"

-- Faults that are not told by one token and what should stand there.
inductive Misplaced where
  | quotedFunctionName
  | bareList
  | thirdColon
deriving DecidableEq

def Misplaced.describe : Misplaced → String
  | .quotedFunctionName => "quoted identifier cannot be used as a function name"
  | .bareList => "multi-select list must start an expression or follow '.'"
  | .thirdColon => "slice takes at most three parts"

inductive ParseError where
  | lex (e : LexError)
  | unexpected (found : TokenKind) (expected : Expected) (position : Position)
  | invalid (fault : Misplaced) (position : Position)
deriving DecidableEq

namespace ParseError

def position : ParseError → Position
  | .lex e => e.position
  | .unexpected _ _ position => position
  | .invalid _ position => position

def describe : ParseError → String
  | .lex e => e.describe
  | .unexpected found expected position =>
    "unexpected " ++ found.describe ++ " at " ++ position.describe ++ ", expected "
      ++ expected.describe
  | .invalid fault position => fault.describe ++ " at " ++ position.describe

end ParseError
end JsonQuery
