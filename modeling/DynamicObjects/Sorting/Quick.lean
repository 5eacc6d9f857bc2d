import DynamicObjects.Sorting.Runs

/-!
# Sorting by pivots

A long list is divided by one of its elements into those less than it and the others, both
in their original order, and both parts are sorted. When nothing is less than the pivot, or
the pivot equals the one that the list lies behind, those that equal it are divided off
instead. After too many divisions the rest is sorted by runs.

* `quickSort`: the sort.
* `stableSort`: insertion for short lists, else runs, short ones sorted by pivots.
-/

namespace DynamicObjects.Sorting

variable {α : Type}

/-! ## Pivots -/

/-- Asks whether the element at one place is less than the one at another. -/
def lessAt (items : Array α) (i j : Nat) : Plan α Bool :=
  match items[i]?, items[j]? with
  | some x, some y => Plan.less x y
  | _, _ => return false

/-- The place, of three, whose element lies between the two others. -/
def medianOfThree (items : Array α) (a b c : Nat) : Plan α Nat := do
  let first ← lessAt items a b
  let second ← lessAt items a c
  if first == second then
    let third ← lessAt items b c
    return if third == first then b else c
  else return a

/-- The place of a middling element of three stretches of a length, which start at three
places. Each stretch is looked at in the same way, as long as it is long enough. -/
def medianOfStretches (items : Array α) (length a b c : Nat) : Plan α Nat := do
  if 8 ≤ length then
    let eighth := length / 8
    let a ← medianOfStretches items eighth a (a + eighth * 4) (a + eighth * 7)
    let b ← medianOfStretches items eighth b (b + eighth * 4) (b + eighth * 7)
    let c ← medianOfStretches items eighth c (c + eighth * 4) (c + eighth * 7)
    medianOfThree items a b c
  else medianOfThree items a b c
termination_by length
decreasing_by all_goals omega

/-- The place of the element to divide a list by. -/
def pivotPlace (items : List α) : Plan α Nat :=
  let eighth := items.length / 8
  medianOfStretches items.toArray eighth 0 (eighth * 4) (eighth * 7)

/-! ## Divisions -/

/-- Divides elements by a question into those that pass and the others, behind what is
divided already, which stands from the last to the first. -/
def divideOnto (passes : α → Plan α Bool) (passed others : List α) :
    List α → Plan α (List α × List α)
  | [] => return (passed.reverse, others.reverse)
  | x :: rest => do
    if ← passes x then divideOnto passes (x :: passed) others rest
    else divideOnto passes passed (x :: others) rest

/-- Divides elements by a question into those that pass and the others. -/
def divide (passes : α → Plan α Bool) (items : List α) : Plan α (List α × List α) :=
  divideOnto passes [] [] items

/-- The elements less than a pivot, and the others with the pivot, given what stands before
it and behind it. -/
def divideBelow (before : List α) (pivot : α) (behind : List α) :
    Plan α (List α × List α) := do
  let (lessBefore, othersBefore) ← divide (fun x => Plan.less x pivot) before
  let (lessBehind, othersBehind) ← divide (fun x => Plan.less x pivot) behind
  return (lessBefore ++ lessBehind, othersBefore ++ pivot :: othersBehind)

/-- Whether a pivot ties with the one that the list lies behind, if there is one. Then no
element is less than it. -/
def repeatsPivot (behindPivot : Option α) (pivot : α) : Plan α Bool :=
  match behindPivot with
  | some earlier => do return !(← Plan.less earlier pivot)
  | none => return false

/-- The elements less than a pivot, and the others, where the list may lie behind an earlier
pivot. -/
def divideLess (behindPivot : Option α) (before : List α) (pivot : α) (behind : List α) :
    Plan α (List α × List α) := do
  if ← repeatsPivot behindPivot pivot then return ([], before ++ pivot :: behind)
  else divideBelow before pivot behind

/-- The elements that a pivot is not less than, with the pivot, and the others. -/
def divideUpTo (before : List α) (pivot : α) (behind : List α) :
    Plan α (List α × List α) := do
  let upTo := fun x => return !(← Plan.less pivot x)
  let (upToBefore, othersBefore) ← divide upTo before
  let (upToBehind, othersBehind) ← divide upTo behind
  return (upToBefore ++ pivot :: upToBehind, othersBefore ++ othersBehind)

/-! ## The sorts -/

/-- Sorts by pivots, dividing a list no more than a number of times in a row. Every element
is at least the pivot that the list lies behind, if there is one. -/
def quickSort (divisions : Nat) (behindPivot : Option α) (items : List α) :
    Plan α (List α) := do
  if items.length ≤ fewElements then sortFew items
  else
    match divisions with
    | 0 => sortByRuns none items
    | divisions + 1 =>
      let place ← pivotPlace items
      let before := items.take place
      match items.drop place with
      | [] => return items
      | pivot :: behind =>
        let (low, high) ← divideLess behindPivot before pivot behind
        if low.isEmpty then
          let (equal, greater) ← divideUpTo before pivot behind
          return equal ++ (← quickSort divisions none greater)
        else
          let high ← quickSort divisions (some pivot) high
          let low ← quickSort divisions behindPivot low
          return low ++ high

/-- Sorts a list by pivots, with about twice as many divisions as halving would need. -/
def quickSortAll (items : List α) : Plan α (List α) :=
  quickSort (2 * Nat.log2 items.length) none items

/-- The length up to which lists are sorted by insertion. -/
def insertionLength : Nat := 20

/-- Sorts a list; equal elements keep their order. -/
def stableSort (items : List α) : Plan α (List α) :=
  if items.length ≤ insertionLength then insertionSort items
  else if items.length ≤ 2 * fewElements then sortByRuns none items
  else sortByRuns (some quickSortAll) items

end DynamicObjects.Sorting
