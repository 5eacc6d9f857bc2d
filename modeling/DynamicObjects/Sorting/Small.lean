import DynamicObjects.Sorting.Insertion
import DynamicObjects.Sorting.Merge

/-!
# Sorting a few elements

Each half is sorted by insertion, and the halves are merged from both ends. From eight
elements on, each half starts with four elements sorted by five comparisons.
-/

namespace DynamicObjects.Sorting

variable {α : Type}

/-- How many elements count as few. -/
def fewElements : Nat := 32

/-- Sorts four elements. The two pairs are ordered first; then the least of all and the
greatest of all are known, and the two others, which stand in their original order. -/
def sortFour (v₀ v₁ v₂ v₃ : α) : Plan α (List α) := do
  let swapFirst ← Plan.less v₁ v₀
  let swapSecond ← Plan.less v₃ v₂
  let (a, b) := if swapFirst then (v₁, v₀) else (v₀, v₁)
  let (c, d) := if swapSecond then (v₃, v₂) else (v₂, v₃)
  let leastIsSecond ← Plan.less c a
  let greatestIsFirst ← Plan.less d b
  let (least, left, right, greatest) :=
    match leastIsSecond, greatestIsFirst with
    | false, false => (a, b, c, d)
    | false, true => (a, c, d, b)
    | true, false => (c, a, b, d)
    | true, true => (c, a, d, b)
  if ← Plan.less right left then return [least, right, left, greatest]
  else return [least, left, right, greatest]

/-- Sorts the first elements of a list, four if asked for, and gives the rest. -/
def sortStart (four : Bool) (items : List α) : Plan α (List α × List α) := do
  match four, items with
  | true, v₀ :: v₁ :: v₂ :: v₃ :: rest => return (← sortFour v₀ v₁ v₂ v₃, rest)
  | _, _ => return (items.take 1, items.drop 1)

/-- Sorts a few elements. -/
def sortFew (items : List α) : Plan α (List α) := do
  if items.length < 2 then return items
  else
    let half := items.length / 2
    let four : Bool := 8 ≤ items.length
    let (left, leftRest) ← sortStart four (items.take half)
    let (right, rightRest) ← sortStart four (items.drop half)
    let leftBack ← insertAll leftRest left.reverse
    let rightBack ← insertAll rightRest right.reverse
    mergeHalves leftBack rightBack

end DynamicObjects.Sorting
