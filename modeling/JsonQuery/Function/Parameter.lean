import JsonQuery.Json.Basic
import JsonQuery.Text.Outline

namespace JsonQuery

-- What a parameter accepts. A reference to an expression is not a value, and nothing
-- but `expression` accepts one.
inductive ParameterType where
  | any | null | boolean | number | string | array | object
  | arrayOfNumbers | arrayOfStrings
  | expression
deriving DecidableEq

namespace ParameterType

def all : List ParameterType :=
  [.any,.null,.boolean,.number,.string,.array,.object,.arrayOfNumbers,.arrayOfStrings,
    .expression]

def name : ParameterType → String
  | .any => "any"
  | .null => "null"
  | .boolean => "boolean"
  | .number => "number"
  | .string => "string"
  | .array => "array"
  | .object => "object"
  | .arrayOfNumbers => "array[number]"
  | .arrayOfStrings => "array[string]"
  | .expression => "expression"

def outline : ParameterType → Outline
  | .any => .text "Any"
  | .null => .text "Null"
  | .boolean => .text "Boolean"
  | .number => .text "Number"
  | .string => .text "String"
  | .array => .text "Array"
  | .object => .text "Object"
  | .arrayOfNumbers => .text "ArrayOfNumbers"
  | .arrayOfStrings => .text "ArrayOfStrings"
  | .expression => .text "Expression"

def isArrayOf (kind : Kind) (v : Json) : Bool :=
  v.kind == .array && v.elements.all fun element => element.kind == kind

def acceptsValue (type : ParameterType) (v : Json) : Bool :=
  match type with
  | .any => true
  | .null => v.kind == .null
  | .boolean => v.kind == .boolean
  | .number => v.kind == .number
  | .string => v.kind == .string
  | .array => v.kind == .array
  | .object => v.kind == .object
  | .arrayOfNumbers => isArrayOf .number v
  | .arrayOfStrings => isArrayOf .string v
  | .expression => false

end ParameterType

structure Parameter where
  types : List ParameterType
  optional : Bool

namespace Parameter

def describe (types : List ParameterType) : String := "|".intercalate (types.map (·.name))

def outline (p : Parameter) : Outline :=
  .record "Parameter"
    [("types",.list "" (p.types.map (·.outline))),("optional",.text (toString p.optional))] false

end Parameter
end JsonQuery
