import JsonQuery.Expr.Outline
import JsonQuery.Json.Writer
import JsonQuery.Query

namespace JsonQuery

structure SearchOptions where
  expression : String
  input : Option String
  checkOnly : Bool
  silent : Bool

inductive SearchResult where
  | valid
  | found (v : Json)

inductive CommandError where
  | parse (e : ParseError)
  | evaluation (e : EvalError)
  | badInput
  | noInput

def CommandError.describe : CommandError → String
  | .parse e => "Syntax error: " ++ e.describe
  | .evaluation e => "Evaluation error: " ++ e.describe
  | .badInput => "Invalid JSON"
  | .noInput => "No input provided. Use --input or pipe JSON to stdin."

-- The expression is looked at first: its faults are told even when there is no input.
def SearchOptions.execute (options : SearchOptions) : Except CommandError SearchResult := do
  let q ← (Query.compile options.expression).mapError .parse
  if options.checkOnly then return .valid
  match options.input with
  | none => .error .noInput
  | some text =>
    match Json.read text with
    | none => .error .badInput
    | some document =>
      let v ← (q.evaluate .builtins options.silent document).mapError .evaluation
      return .found v

def describeTree (expression : String) : Except CommandError String := do
  let q ← (Query.compile expression).mapError .parse
  return q.tree.outline.manyLines 0

-- One call of the program.
inductive Command where
  | search (expression : String) (input : Option String) (pretty checkOnly silent : Bool)
  | tree (expression : String)

structure Report where
  code : Nat
  output : String
  errors : String

namespace Command

-- Piped text is the document unless one is given or none is needed.
def readsPiped : Command → Bool
  | .search _ input _ checkOnly _ => input.isNone && !checkOnly
  | .tree _ => false

def perform (piped : Option String) : Command → Except CommandError String
  | .search expression input pretty checkOnly silent => do
    match ← SearchOptions.execute ⟨expression,input.or piped,checkOnly,silent⟩ with
    | .valid => return "Syntax is valid"
    | .found v => return if pretty then v.indented 0 else v.compact
  | .tree expression => describeTree expression

def run (piped : Option String) (command : Command) : Report :=
  match command.perform piped with
  | .ok text => ⟨0,text ++ "\n",""⟩
  | .error e => ⟨1,"",e.describe⟩

end Command
end JsonQuery
