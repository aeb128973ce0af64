namespace JsonQuery

-- A scope is the history of its own making. Nothing changes one: binding a name gives
-- a new scope, so whoever holds the old one goes on seeing the old names.
inductive Scope (α : Type) where
  | empty
  | child (parent : Scope α)
  | bind (name : String) (value : α) (parent : Scope α)

namespace Scope

-- The innermost binding of the name.
def get? (name : String) : Scope α → Option α
  | .empty => none
  | .child parent => get? name parent
  | .bind bound value parent => if bound = name then some value else get? name parent

end Scope
end JsonQuery
