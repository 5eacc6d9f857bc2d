import DynamicObjects.Number.Binary64

/-!
# Typed arrays

Numeric sequences whose elements have one fixed width.
-/

namespace DynamicObjects

open Number

/-- A numeric sequence of fixed width. -/
inductive TypedArray where
  | int8 (items : List Int8)
  | int16 (items : List Int16)
  | int32 (items : List Int32)
  | float32 (items : List Binary32)
  | float64 (items : List Binary64)
  deriving DecidableEq

namespace TypedArray

/-- The number of elements. -/
def length : TypedArray → Nat
  | int8 items => items.length
  | int16 items => items.length
  | int32 items => items.length
  | float32 items => items.length
  | float64 items => items.length

/-- The type label. -/
def typeName : TypedArray → String
  | int8 _ => "Int8Array"
  | int16 _ => "Int16Array"
  | int32 _ => "Int32Array"
  | float32 _ => "Float32Array"
  | float64 _ => "Float64Array"

/-- Equal width and equal numbers; what is no number equals nothing. -/
def same : TypedArray → TypedArray → Bool
  | int8 xs, int8 ys => xs == ys
  | int16 xs, int16 ys => xs == ys
  | int32 xs, int32 ys => xs == ys
  | float32 xs, float32 ys =>
    xs.length == ys.length && (xs.zip ys).all fun (x, y) => x.widen.numericallyEqual y.widen
  | float64 xs, float64 ys =>
    xs.length == ys.length && (xs.zip ys).all fun (x, y) => x.numericallyEqual y
  | _, _ => false

end TypedArray

end DynamicObjects
