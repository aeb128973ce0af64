import JsonQuery.Builtin.Body
import JsonQuery.Evaluation
import JsonQuery.Expr.Parser

namespace JsonQuery

-- A compiled expression with the text it came from. Compiling needs neither data nor
-- functions, only a reader that tells documents from other texts.
structure Query where
  source : String
  tree : Expr

namespace Query

def compile (source : String) (accepts : List Char → Bool := Json.accepts) : Except ParseError Query := do
  let tree ← Expr.parse source accepts
  return ⟨source,tree⟩

-- Two queries are the same when their trees are, however they were written.
instance : BEq Query := ⟨fun a b => a.tree == b.tree⟩

-- The document is the first current value and also the root.
def evaluate (q : Query) (registry : Registry) (silent : Bool) (document : Json) :
    Except EvalError Json :=
  q.tree.eval ⟨registry,silent,document⟩ document .empty

end Query

inductive QueryError where
  | malformed (e : ParseError)
  | evaluation (e : EvalError)

namespace QueryError

def kind : QueryError → ErrorKind
  | .malformed _ => .malformed
  | .evaluation e => e.kind

def describe : QueryError → String
  | .malformed e => "syntax error: " ++ e.describe
  | .evaluation e => e.describe

end QueryError

-- One query, one document, the builtin functions, and errors where they occur.
def search (source : String) (document : Json) : Except QueryError Json := do
  let q ← (Query.compile source).mapError .malformed
  (q.evaluate .builtins false document).mapError .evaluation

end JsonQuery
