/-!
# The named operations

The operations on values that scripts call by name, how many arguments each takes,
and the signature shown when a call goes wrong.
-/

namespace DynamicObjects

/-- The named operations. -/
inductive Builtin where
  | len | typeOf | kindOf
  | isList | isMap | isIterable | isFunction | isInstance | isDefined | isUndefined
  | isNumber | isString | isObject
  | keys | values | items | pairs | access | offset | copy | merge
  | find | findLike | findOneOf | first | last | insert | add | remove | removeAt
  | slice | reverse | isIn
  | difference | union | intersection | asMap | couplesAsMap | itemsAsMap
  | map | filter | reduce | foldl | cmp | greater | smaller | sorted
  deriving DecidableEq, Repr

namespace Builtin

/-- Every named operation, by concern. -/
def all : List Builtin :=
  [len, typeOf, kindOf, isList, isMap, isIterable, isFunction, isInstance, isDefined,
    isUndefined, isNumber, isString, isObject, keys, values, items, pairs, access, offset,
    copy, merge, find, findLike, findOneOf, first, last, insert, add, remove, removeAt,
    slice, reverse, isIn, difference, union, intersection, asMap, couplesAsMap, itemsAsMap,
    map, filter, reduce, foldl, cmp, greater, smaller, sorted]

/-- The name of an operation, and how it is called: the fewest arguments, the most, and
the signature. -/
def describe : Builtin → String × Nat × Nat × String
  | len => ("len", 1, 1, "len(value)")
  | typeOf => ("type_of", 1, 1, "type_of(value)")
  | kindOf => ("kind_of", 1, 1, "kind_of(value)")
  | isList => ("is_list", 1, 1, "is_list(value)")
  | isMap => ("is_map", 1, 1, "is_map(value)")
  | isIterable => ("is_iterable", 1, 1, "is_iterable(value)")
  | isFunction => ("is_function", 1, 1, "is_function(value)")
  | isInstance => ("is_instance", 1, 2, "is_instance(value, class?)")
  | isDefined => ("is_defined", 1, 1, "is_defined(value)")
  | isUndefined => ("is_undefined", 1, 1, "is_undefined(value)")
  | isNumber => ("is_number", 1, 1, "is_number(value)")
  | isString => ("is_string", 1, 1, "is_string(value)")
  | isObject => ("is_object", 1, 1, "is_object(value)")
  | keys => ("keys", 1, 1, "keys(value)")
  | values => ("values", 1, 1, "values(value)")
  | items => ("items", 1, 1, "items(value)")
  | pairs => ("pairs", 1, 1, "pairs(value)")
  | access => ("access", 2, 2, "access(value, index)")
  | offset => ("offset", 2, 2, "offset(value, index)")
  | copy => ("copy", 1, 2, "copy(value, depth=1)")
  | merge => ("merge", 2, 3, "merge(a, b, replace=false)")
  | find => ("find", 2, 2, "find(container, value)")
  | findLike => ("find_like", 2, 2, "find_like(container, pred)")
  | findOneOf => ("find_one_of", 2, 2, "find_one_of(container, values)")
  | first => ("first", 1, 2, "first(container, pred?)")
  | last => ("last", 1, 2, "last(container, pred?)")
  | insert => ("insert", 3, 3, "insert(list, position, value)")
  | add => ("add", 2, 2, "add(list, value)")
  | remove => ("remove", 2, 2, "remove(container, value)")
  | removeAt => ("remove_at", 2, 2, "remove_at(container, index)")
  | slice => ("slice", 1, 3, "slice(value, start=0, end?)")
  | reverse => ("reverse", 1, 1, "reverse(value)")
  | isIn => ("is_in", 2, 3, "is_in(value, list, pred?)")
  | difference => ("difference", 2, 2, "difference(a, b)")
  | union => ("union", 2, 2, "union(a, b)")
  | intersection => ("intersection", 2, 2, "intersection(a, b)")
  | asMap => ("as_map", 2, 3, "as_map(iterable, extractor, replacer?)")
  | couplesAsMap => ("couples_as_map", 1, 1, "couples_as_map(couples)")
  | itemsAsMap => ("items_as_map", 1, 1, "items_as_map(items)")
  | map => ("map", 2, 2, "map(container, fn)")
  | filter => ("filter", 2, 3, "filter(container, pred, processor?)")
  | reduce => ("reduce", 2, 3, "reduce(container, fn, initial?)")
  | foldl => ("foldl", 3, 3, "foldl(container, seed, fn)")
  | cmp => ("cmp", 2, 2, "cmp(a, b)")
  | greater => ("greater", 2, 2, "greater(a, b)")
  | smaller => ("smaller", 2, 2, "smaller(a, b)")
  | sorted => ("sorted", 1, 3, "sorted(value, comparison?, reverse=false)")

/-- The name scripts use. -/
def name (b : Builtin) : String := b.describe.1

/-- The fewest arguments of a call. -/
def fewest (b : Builtin) : Nat := b.describe.2.1

/-- The most arguments of a call. -/
def most (b : Builtin) : Nat := b.describe.2.2.1

/-- The signature shown in hints. -/
def signature (b : Builtin) : String := b.describe.2.2.2

/-- The operation of a name. -/
def ofName? (name : String) : Option Builtin := all.find? fun b => b.name = name

end Builtin

end DynamicObjects
