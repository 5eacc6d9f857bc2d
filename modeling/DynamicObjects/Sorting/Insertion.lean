import DynamicObjects.Sorting.Plan

/-!
# Sorting by insertion

Elements are put one after the other into a run that is kept from the last to the first,
each behind those that it is not less than. Equal elements keep their order.
-/

namespace DynamicObjects.Sorting

variable {α : Type}

/-- Puts an element into a run sorted from the last to the first, behind the elements
that it is less than. -/
def insertBackwards (x : α) : List α → Plan α (List α)
  | [] => return [x]
  | y :: rest => do
    if ← Plan.less x y then return y :: (← insertBackwards x rest) else return x :: y :: rest

/-- Puts elements one after the other into a run sorted from the last to the first. -/
def insertAll : List α → List α → Plan α (List α)
  | [], run => return run
  | x :: rest, run => do
    let run ← insertBackwards x run
    insertAll rest run

def insertionSort (items : List α) : Plan α (List α) := do
  return (← insertAll items []).reverse

end DynamicObjects.Sorting
