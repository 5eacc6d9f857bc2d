import DynamicObjects.World.Eval

/-!
# Plans of comparisons

A sorting algorithm learns about its elements only by asking whether one is less than
another. A `Plan` says what to ask first, how to go on with either answer, and what comes
out in the end. So an algorithm is written and understood once, whatever comparing does:
`Plan.run` asks a computation, which may fail and change the world.

Which questions are asked, and in which order, is part of a plan.
-/

namespace DynamicObjects.Sorting

/-- What to ask about elements, and what comes out. -/
inductive Plan (α β : Type) where
  | done (result : β)
  /-- Asks whether one element is less than another, and goes on with the answer. -/
  | ask (x y : α) (next : Bool → Plan α β)
  /-- Nothing comes out, for the answers so far fit no order. -/
  | contradiction

namespace Plan

variable {α β γ : Type}

/-- One plan after another. -/
protected def bind : Plan α β → (β → Plan α γ) → Plan α γ
  | done result, f => f result
  | ask x y next, f => ask x y fun answer => (next answer).bind f
  | contradiction, _ => contradiction

instance : Monad (Plan α) where
  pure := done
  bind := Plan.bind

/-- Asks whether one element is less than another. -/
def less (x y : α) : Plan α Bool := ask x y done

/-- Asks a computation. -/
def run (isLess : α → α → Eval Bool) : Plan α β → Eval β
  | done result => return result
  | ask x y next => do
    let answer ← isLess x y
    (next answer).run isLess
  | contradiction => Eval.stuck .inconsistent

end Plan

end DynamicObjects.Sorting
