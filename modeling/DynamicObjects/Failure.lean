import DynamicObjects.Value.Text

/-!
# Failures

What can go wrong in a call, by cause, and the text that says so.
-/

namespace DynamicObjects

open Number

inductive Failure where
  /-- A call with too few or too many arguments. -/
  | arity (callee : String) (fewest most got : Nat) (signature : String)
  /-- An argument or a result of the wrong type. -/
  | type (callee role expected got signature : String)
  /-- A class whose member for lengths answers no length. -/
  | badLength (cls got : String)
  /-- An operation on a type that has no such operation. -/
  | unsupportedType (operation got : String)
  | unknownMember (cls member : String)
  | noParent (cls : String)
  | notAnAncestor (cls ancestor : String)
  /-- A call on a receiver that nothing keeps alive any more. -/
  | detachedReceiver (member : String)
  /-- A value raised by a script. -/
  | raised (value : Value)

namespace Failure

def kind : Failure → String
  | arity .. => "Arity"
  | type .. | badLength .. => "Type"
  | unsupportedType .. => "UnsupportedType"
  | unknownMember .. => "UnknownMember"
  | noParent .. => "NoParent"
  | notAnAncestor .. => "NotAnAncestor"
  | detachedReceiver .. => "DetachedReceiver"
  | raised .. => "Raised"

/-- The line that shows a signature. -/
def hint (signature : String) : String := "\n\nHint:\n  " ++ signature

/-- How many arguments a call takes. -/
def countText (fewest most : Nat) : String :=
  if fewest = most then digitText fewest else digitText fewest ++ ".." ++ digitText most

/-- The text of a failure. -/
def message : Failure → String
  | arity callee fewest most got signature =>
    let expected := countText fewest most
    "wrong number of arguments\n\n  function: " ++ callee ++ "/" ++ expected ++
      "\n  expected: " ++ expected ++ "\n  got: " ++ digitText got ++ hint signature
  | type callee role expected got signature =>
    callee ++ " expected " ++ role ++ " to be " ++ expected ++ ", got " ++ got ++ hint signature
  | badLength cls got =>
    cls ++ ".length expected to return a non-negative Int, got " ++ got
  | unsupportedType operation got => operation ++ ": unsupported type " ++ got
  | unknownMember cls member => cls ++ " has no member \x60" ++ member ++ "\x60"
  | noParent cls => cls ++ " has no parent class"
  | notAnAncestor cls ancestor => ancestor ++ " is not an ancestor of " ++ cls
  | detachedReceiver member => "receiver of \x60" ++ member ++ "\x60 was dropped before the call"
  | raised value => "raised " ++ value.display

end Failure

end DynamicObjects
