import JsonQuery.Function.Signature

namespace JsonQuery

inductive Builtin where
  | abs | avg | ceil | floor | sum
  | contains | endsWith | startsWith | join
  | length | max | min | reverse | sort | keys | values | merge
  | toArray | toNumber | toString | type | notNull
  | map | sortBy | minBy | maxBy
deriving DecidableEq

namespace Builtin

def name : Builtin → String
  | .abs => "abs"
  | .avg => "avg"
  | .ceil => "ceil"
  | .floor => "floor"
  | .sum => "sum"
  | .contains => "contains"
  | .endsWith => "ends_with"
  | .startsWith => "starts_with"
  | .join => "join"
  | .length => "length"
  | .max => "max"
  | .min => "min"
  | .reverse => "reverse"
  | .sort => "sort"
  | .keys => "keys"
  | .values => "values"
  | .merge => "merge"
  | .toArray => "to_array"
  | .toNumber => "to_number"
  | .toString => "to_string"
  | .type => "type"
  | .notNull => "not_null"
  | .map => "map"
  | .sortBy => "sort_by"
  | .minBy => "min_by"
  | .maxBy => "max_by"

-- Arrays whose elements are ordered among each other.
def comparable : List ParameterType := [.arrayOfNumbers,.arrayOfStrings]

def signature : Builtin → Signature
  | .abs | .ceil | .floor => Signature.empty.arg [.number]
  | .avg | .sum => Signature.empty.arg [.arrayOfNumbers]
  | .contains => (Signature.empty.arg [.array,.string]).arg [.any]
  | .endsWith | .startsWith => (Signature.empty.arg [.string]).arg [.string]
  | .join => (Signature.empty.arg [.string]).arg [.arrayOfStrings]
  | .length => Signature.empty.arg [.string,.array,.object]
  | .max | .min | .sort => Signature.empty.arg comparable
  | .reverse => Signature.empty.arg [.string,.array]
  | .keys | .values => Signature.empty.arg [.object]
  | .merge => (Signature.empty.arg [.object]).variadic [.object]
  | .toArray | .toNumber | .toString | .type => Signature.empty.arg [.any]
  | .notNull => (Signature.empty.arg [.any]).variadic [.any]
  | .map => (Signature.empty.arg [.expression]).arg [.array]
  | .sortBy | .minBy | .maxBy => (Signature.empty.arg [.array]).arg [.expression]

-- The groups they are registered in, and the order inside each.
def groups : List (String × List Builtin) :=
  [("math",[.abs,.avg,.ceil,.floor,.sum]),
    ("strings",[.contains,.endsWith,.startsWith,.join]),
    ("collections",[.length,.max,.min,.reverse,.sort,.keys,.values,.merge]),
    ("conversion",[.toArray,.toNumber,.toString,.type,.notNull]),
    ("higher_order",[.map,.sortBy,.minBy,.maxBy])]

end Builtin
end JsonQuery
