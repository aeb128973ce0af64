import JsonQuery.Json.Slice

namespace JsonQuery

inductive Comparison where
  | equal | notEqual | less | lessEqual | greater | greaterEqual
deriving DecidableEq

def Comparison.text : Comparison → String
  | .equal => "=="
  | .notEqual => "!="
  | .less => "<"
  | .lessEqual => "<="
  | .greater => ">"
  | .greaterEqual => ">="

-- An expression as a tree. Access (`field`, `index`, `slice`) is to the current value;
-- `within left right` makes the result of `left` current for `right`. The three
-- projections run `rest`, if there is one, on every element rather than on the whole.
-- A literal is kept as the text of a document, and names of functions are looked up
-- only when they are called.
inductive Expr where
  | current
  | root
  | variable (name : String)
  | field (name : String)
  | index (i : Int)
  | slice (s : Slice)
  | within (left right : Expr)
  | flatten (e : Expr)
  | projectArray (left : Expr) (rest : Option Expr)
  | projectObject (left : Expr) (rest : Option Expr)
  | filter (left condition : Expr) (rest : Option Expr)
  | pipe (left right : Expr)
  | or (left right : Expr)
  | and (left right : Expr)
  | not (e : Expr)
  | compare (op : Comparison) (left right : Expr)
  | list (elements : List Expr)
  | hash (entries : List (String × Expr))
  | call (name : String) (arguments : List Expr)
  | reference (e : Expr)
  | literal (text : String)
  | rawString (s : String)
  | letIn (bindings : List (String × Expr)) (body : Expr)

namespace Expr

-- What follows a projection belongs to its elements.
def isProjection : Expr → Bool
  | .projectArray .. | .projectObject .. | .filter .. => true
  | _ => false

mutual
def same : Expr → Expr → Bool
  | .current, .current => true
  | .root, .root => true
  | .variable a, .variable b => a == b
  | .field a, .field b => a == b
  | .index i, .index j => i == j
  | .slice s, .slice t => s == t
  | .within a b, .within c d => same a c && same b d
  | .flatten a, .flatten b => same a b
  | .projectArray a r, .projectArray b s => same a b && sameOption r s
  | .projectObject a r, .projectObject b s => same a b && sameOption r s
  | .filter a c r, .filter b d s => same a b && same c d && sameOption r s
  | .pipe a b, .pipe c d => same a c && same b d
  | .or a b, .or c d => same a c && same b d
  | .and a b, .and c d => same a c && same b d
  | .not a, .not b => same a b
  | .compare o a b, .compare p c d => o == p && same a c && same b d
  | .list a, .list b => sameList a b
  | .hash a, .hash b => samePairs a b
  | .call n a, .call m b => n == m && sameList a b
  | .reference a, .reference b => same a b
  | .literal a, .literal b => a == b
  | .rawString a, .rawString b => a == b
  | .letIn a b, .letIn c d => samePairs a c && same b d
  | _, _ => false
termination_by structural e => e

def sameOption : Option Expr → Option Expr → Bool
  | none, none => true
  | some a, some b => same a b
  | _, _ => false
termination_by structural e => e

def sameList : List Expr → List Expr → Bool
  | [], [] => true
  | a :: as, b :: bs => same a b && sameList as bs
  | _, _ => false
termination_by structural es => es

def samePairs : List (String × Expr) → List (String × Expr) → Bool
  | [], [] => true
  | (n,a) :: as, (m,b) :: bs => n == m && same a b && samePairs as bs
  | _, _ => false
termination_by structural es => es
end

instance : BEq Expr := ⟨same⟩

end Expr
end JsonQuery
