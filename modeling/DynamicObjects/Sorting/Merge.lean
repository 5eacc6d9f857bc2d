import DynamicObjects.Sorting.Plan

/-!
# Merging runs

Two sorted runs become one. Of two equal elements the one of the left run goes first, from
whichever end the runs are merged.

* `merge`: from the front.
* `mergeBackwards`: from the back, both runs given from the last to the first.
* `mergeAlong`: along the shorter run, from the front or from the back.
* `mergeInward`: from both ends in turn.
* `mergeSort`: stable merging of halves.
-/

namespace DynamicObjects.Sorting

variable {α : Type}

/-- Merges two runs from the front, behind what is merged already, the last element
first. -/
def mergeOnto (merged : List α) : List α → List α → Plan α (List α)
  | [], right => return merged.reverse ++ right
  | left, [] => return merged.reverse ++ left
  | l :: left, r :: right => do
    if ← Plan.less r l then mergeOnto (r :: merged) (l :: left) right
    else mergeOnto (l :: merged) left (r :: right)
termination_by left right => left.length + right.length

/-- Merges two runs from the front. -/
def merge (left right : List α) : Plan α (List α) := mergeOnto [] left right

/-- Merges two runs from the back, in front of what is merged already. The runs are given
from the last to the first. -/
def mergeBackwards (merged : List α) : List α → List α → Plan α (List α)
  | [], right => return right.reverse ++ merged
  | left, [] => return left.reverse ++ merged
  | l :: left, r :: right => do
    if ← Plan.less r l then mergeBackwards (l :: merged) left (r :: right)
    else mergeBackwards (r :: merged) (l :: left) right
termination_by left right => left.length + right.length

/-- Merges two runs from the end at which the shorter one lies. -/
def mergeAlong (left right : List α) : Plan α (List α) :=
  if left.length ≤ right.length then merge left right
  else mergeBackwards [] left.reverse right.reverse

/-! ## From both ends -/

/-- Two runs on the way to being merged from both ends. Each run is kept twice, what is
left of it from the front and what is left of it from the back, the last element first. -/
structure Inward (α : Type) where
  left : List α
  right : List α
  leftBack : List α
  rightBack : List α
  /-- What is merged in front, the last element first. -/
  front : List α := []
  /-- What is merged at the back. -/
  back : List α := []

/-- The two runs at the start, given from the last to the first. -/
def Inward.start (leftBack rightBack : List α) : Inward α :=
  { left := leftBack.reverse, right := rightBack.reverse, leftBack, rightBack }

/-- The merged run, of two runs of the given lengths. At most one element is still in the
middle; it belongs to the run that is not used up. When the two ends do not meet, the
answers were contradictory. -/
def Inward.finish (state : Inward α) (leftLength rightLength : Nat) : Plan α (List α) :=
  let middle :=
    state.left.take (state.left.length + state.leftBack.length - leftLength) ++
      state.right.take (state.right.length + state.rightBack.length - rightLength)
  let merged := state.front.reverse ++ middle ++ state.back
  if merged.length = leftLength + rightLength then return merged else .contradiction

/-- Takes a number of elements from the front and as many from the back, in turn. -/
def mergeInward : Nat → Inward α → Plan α (Inward α)
  | count + 1, ⟨l :: left, r :: right, l' :: leftBack, r' :: rightBack, front, back⟩ => do
    let rightFirst ← Plan.less r l
    let leftLast ← Plan.less r' l'
    mergeInward count
      { left := if rightFirst then l :: left else left
        right := if rightFirst then right else r :: right
        leftBack := if leftLast then leftBack else l' :: leftBack
        rightBack := if leftLast then r' :: rightBack else rightBack
        front := (if rightFirst then r else l) :: front
        back := (if leftLast then l' else r') :: back }
  | _, state => return state

/-- Merges two runs from both ends, given from the last to the first. The right one is as
long as the left one or longer by one. -/
def mergeHalves (leftBack rightBack : List α) : Plan α (List α) := do
  let state ← mergeInward leftBack.length (.start leftBack rightBack)
  state.finish leftBack.length rightBack.length

/-! ## Merging halves -/

/-- Sorts by merging halves, the right half being no shorter. -/
def mergeSort (items : List α) : Plan α (List α) :=
  if items.length ≤ 1 then return items
  else do
    let left ← mergeSort (items.take (items.length / 2))
    let right ← mergeSort (items.drop (items.length / 2))
    merge left right
termination_by items.length
decreasing_by all_goals (simp only [List.length_take, List.length_drop]; omega)

end DynamicObjects.Sorting
