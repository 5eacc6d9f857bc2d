import DynamicObjects.Sorting.Small

/-!
# Sorting by runs

A list is cut into runs from the front. Where elements stand in order already, or strictly
against it, and there are enough of them, they make a run; elsewhere a short stretch does.
Neighbouring runs are joined in an order read off their places, so that the joins make a
balanced tree.

Short runs are sorted at once, or they wait: then neighbours that both wait are joined
without being sorted, and are sorted together later.

* `sortByRuns`: the sort.
-/

namespace DynamicObjects.Sorting

variable {α : Type}

/-! ## Runs -/

/-- A stretch of the list. -/
inductive Run (α : Type) where
  | sorted (items : List α)
  | waiting (items : List α)

/-- The elements of a run. -/
def Run.items : Run α → List α
  | sorted items | waiting items => items

/-- How many more elements go on, each less than the one before it when the run descends,
none less than the one before it otherwise. -/
def countOn (descends : Bool) (count : Nat) (last : α) : List α → Plan α Nat
  | [] => return count
  | x :: rest => do
    if (← Plan.less x last) == descends then countOn descends (count + 1) x rest
    else return count

/-- How many elements behind the first stand in order with it, or strictly against it, and
whether they stand against it. -/
def existingRun (first : α) : List α → Plan α (Nat × Bool)
  | [] => return (0, false)
  | x :: rest => do
    let descends ← Plan.less x first
    return (← countOn descends 1 x rest, descends)

/-! ## Joining -/

section Later

variable (later : Option (List α → Plan α (List α)))

/-- The elements of a run in order. -/
def Run.settle : Run α → Plan α (List α)
  | sorted items => return items
  | waiting items =>
    match later with
    | some sort => sort items
    | none => return items

/-- Joins neighbouring runs. Two that wait go on waiting. -/
def Run.join (left right : Run α) : Plan α (Run α) := do
  match left, right with
  | waiting left, waiting right => return waiting (left ++ right)
  | _, _ =>
    let left ← left.settle later
    let right ← right.settle later
    return sorted (← mergeAlong left right)

/-- Joins the last run with those before it whose join lies at least so deep. The runs
before it are given from the last to the first, each with the depth of the join behind
it. -/
def joinDeeper (depth : Nat) : List (Run α × Nat) → Run α → Plan α (List (Run α × Nat) × Run α)
  | [], last => return ([], last)
  | (run, d) :: before, last => do
    if depth ≤ d then
      let joined ← run.join later last
      joinDeeper depth before joined
    else return ((run, d) :: before, last)

/-- The depth of the join of two neighbouring runs among all: the number of leading binary
digits that their middles have in common, as fractions of the whole length. -/
def joinDepth (total start middle stop : Nat) : Nat :=
  let scale := (0x4000000000000000 + total - 1) / total
  63 - Nat.log2 ((scale * (start + middle)) ^^^ (scale * (middle + stop)))

/-! ## The sort -/

/-- How long a run must be that is kept as it stands: half of the list, at most
sixty-four, and about the square root of the length of a long list. -/
def goodLength (total : Nat) : Nat :=
  if total ≤ 4096 then min (total - total / 2) 64
  else
    let shift := (1 + Nat.log2 total) / 2
    ((1 <<< shift) + (total >>> shift)) / 2

/-- A short run from the front: a few elements, sorted, or as many as make a good run,
waiting. -/
def shortRun (good : Nat) (items : List α) : Plan α (Run α) := do
  match later with
  | none => return .sorted (← sortFew (items.take fewElements))
  | some _ => return .waiting (items.take good)

def firstRun (good : Nat) (first : α) (rest : List α) : Plan α (Run α) := do
  if rest.length + 1 < good then shortRun later good (first :: rest)
  else
    let (count, descends) ← existingRun first rest
    if count + 1 < good then shortRun later good (first :: rest)
    else
      let items := first :: rest.take count
      return .sorted (if descends then items.reverse else items)

/-- Goes on from the runs so far: those before the last one with the depths of the joins
behind them, and the last one with the place where it starts. -/
def joinRuns (total : Nat) (before : List (Run α × Nat)) (last : Run α) (start : Nat) :
    List α → Plan α (List α)
  | [] => do
    let (_, whole) ← joinDeeper later 0 before last
    whole.settle later
  | first :: rest => do
    let next ← firstRun later (goodLength total) first rest
    let middle := start + last.items.length
    let depth := joinDepth total start middle (middle + next.items.length)
    let (before, joined) ← joinDeeper later depth before last
    joinRuns total ((joined, depth) :: before) next middle
      (rest.drop (next.items.length - 1))
termination_by items => items.length
decreasing_by simp only [List.length_drop, List.length_cons]; omega

/-- Sorts by runs. Short runs are sorted at once, or wait to be sorted `later`. -/
def sortByRuns (items : List α) : Plan α (List α) := do
  match items with
  | [] => return []
  | first :: rest =>
    let run ← firstRun later (goodLength items.length) first rest
    joinRuns later items.length [] run 0 (rest.drop (run.items.length - 1))

end Later

end DynamicObjects.Sorting
