import JsonQuery.Expr.Basic
import JsonQuery.Text.Outline

namespace JsonQuery

def Comparison.outline : Comparison → Outline
  | .equal => .text "Equal"
  | .notEqual => .text "NotEqual"
  | .less => .text "LessThan"
  | .lessEqual => .text "LessEqual"
  | .greater => .text "GreaterThan"
  | .greaterEqual => .text "GreaterEqual"

def Slice.outline (s : Slice) : Outline :=
  let bound : Option Int → Outline := .option fun i => .text (toString i)
  .record "Slice" [("start",bound s.start),("stop",bound s.stop),("step",bound s.step)] false

namespace Expr

def outlineSides (name : String) (left right : Outline) : Outline :=
  .record name [("left",left),("right",right)] false

mutual
def outline : Expr → Outline
  | .current => .text "Current"
  | .root => .text "Root"
  | .variable name => .tuple "VariableRef" [.string name]
  | .field name => .tuple "Identifier" [.string name]
  | .index i => .tuple "Index" [.text (toString i)]
  | .slice s => .tuple "Slice" [s.outline]
  | .within left right => outlineSides "Subexpression" (outline left) (outline right)
  | .flatten e => .tuple "Flatten" [outline e]
  | .projectArray left rest => outlineSides "ArrayProjection" (outline left) (outlineRest rest)
  | .projectObject left rest => outlineSides "ObjectProjection" (outline left) (outlineRest rest)
  | .filter left condition rest =>
    .record "Filter"
      [("left",outline left),("condition",outline condition),("right",outlineRest rest)] false
  | .pipe left right => outlineSides "Pipe" (outline left) (outline right)
  | .or left right => outlineSides "Or" (outline left) (outline right)
  | .and left right => outlineSides "And" (outline left) (outline right)
  | .not e => .tuple "Not" [outline e]
  | .compare op left right =>
    .record "Comparison" [("op",op.outline),("left",outline left),("right",outline right)] false
  | .list elements => .tuple "MultiSelectList" [.list "" (outlineList elements)]
  | .hash entries => .tuple "MultiSelectHash" [.list "" (outlinePairs "KeyValue" "key" entries)]
  | .call name arguments =>
    .record "FunctionCall" [("name",.string name),("args",.list "" (outlineList arguments))] false
  | .reference e => .tuple "ExpressionRef" [outline e]
  | .literal text => .tuple "Literal" [.string text]
  | .rawString s => .tuple "RawString" [.string s]
  | .letIn bindings body =>
    .record "Let"
      [("bindings",.list "" (outlinePairs "Binding" "name" bindings)),("body",outline body)] false
termination_by structural e => e

def outlineRest : Option Expr → Outline
  | none => .text "None"
  | some e => .tuple "Some" [outline e]
termination_by structural e => e

def outlineList : List Expr → List Outline
  | [] => []
  | e :: es => outline e :: outlineList es
termination_by structural es => es

def outlinePairs (form key : String) : List (String × Expr) → List Outline
  | [] => []
  | (name,e) :: es =>
    .record form [(key,.string name),("value",outline e)] false :: outlinePairs form key es
termination_by structural es => es
end

end Expr
end JsonQuery
