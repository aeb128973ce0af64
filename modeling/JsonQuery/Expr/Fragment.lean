import JsonQuery.Expr.Basic

namespace JsonQuery

-- One postfix piece, read but not yet attached to what stands on its left.
inductive Fragment where
  | select (e : Expr)
  | index (i : Int)
  | slice (s : Slice)
  | wildcard
  | values
  | filter (condition : Expr)

namespace Expr

-- The current value needs no step to be reached.
def andThen (left right : Expr) : Expr :=
  match left with
  | .current => right
  | _ => .within left right

-- On the result of `e` as a whole.
def apply (e : Expr) : Fragment → Expr
  | .select right => e.andThen right
  | .index i => e.andThen (.index i)
  | .slice s => .projectArray (e.andThen (.slice s)) none
  | .wildcard => .projectArray e none
  | .values => .projectObject e none
  | .filter condition => .filter e condition none

-- Behind a projection a piece joins the end of what runs on each element.
def attach : Expr → Fragment → Expr
  | .projectArray left none, piece => .projectArray left (some (apply .current piece))
  | .projectArray left (some rest), piece => .projectArray left (some (attach rest piece))
  | .projectObject left none, piece => .projectObject left (some (apply .current piece))
  | .projectObject left (some rest), piece => .projectObject left (some (attach rest piece))
  | .filter left condition none, piece =>
    .filter left condition (some (apply .current piece))
  | .filter left condition (some rest), piece =>
    .filter left condition (some (attach rest piece))
  | e, piece => apply e piece
termination_by structural e => e

-- Flattening takes everything on its left, a projection too.
def flattened (e : Expr) : Expr := .projectArray (.flatten e) none

end Expr
end JsonQuery
