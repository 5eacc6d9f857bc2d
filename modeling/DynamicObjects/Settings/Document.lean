import DynamicObjects.Json.Reader
import DynamicObjects.Settings

/-!
# Settings from a document

Settings are written as an object or as an array. An object may leave fields out and
may hold others, which are passed over; no field of the settings comes twice. An
array lists the fields in order and may stop early. A field left out has its default.
-/

namespace DynamicObjects.Settings

open Json Reader

/-- Settings being read: the fields seen so far. -/
structure Fields where
  warnOnRedeclare : Option Bool := none
  reportCallbackErrors : Option Bool := none
  logFilter : Option String := none

/-- The settings of the fields seen, what was not seen having its default. -/
def Fields.complete (seen : Fields) : Settings :=
  let initial : Settings := {}
  { warnOnRedeclare := seen.warnOnRedeclare.getD initial.warnOnRedeclare
    reportCallbackErrors := seen.reportCallbackErrors.getD initial.reportCallbackErrors
    logFilter := seen.logFilter.getD initial.logFilter }

/-- A flag after blanks. -/
def readFlag (text : List Char) : Option (Bool × List Char) :=
  match skipBlanks text with
  | 't' :: rest => (word ['r', 'u', 'e'] rest).map fun rest => (true, rest)
  | 'f' :: rest => (word ['a', 'l', 's', 'e'] rest).map fun rest => (false, rest)
  | _ => none

/-- A string after blanks. -/
def readString (fuel : Nat) (text : List Char) : Option (String × List Char) :=
  match skipBlanks text with
  | '"' :: rest => Reader.string .strict fuel rest
  | _ => none

/-- The value of a field, put into the fields seen. A field is read once. -/
def readField (fuel : Nat) (key : String) (seen : Fields) (text : List Char) :
    Option (Fields × List Char) := do
  match key with
  | "warn_on_redeclare" =>
    if seen.warnOnRedeclare.isSome then none
    let (flag, rest) ← readFlag text
    return ({ seen with warnOnRedeclare := some flag }, rest)
  | "report_callback_errors" =>
    if seen.reportCallbackErrors.isSome then none
    let (flag, rest) ← readFlag text
    return ({ seen with reportCallbackErrors := some flag }, rest)
  | "log_filter" =>
    if seen.logFilter.isSome then none
    let (filter, rest) ← readString fuel text
    return ({ seen with logFilter := some filter }, rest)
  | _ =>
    let (_, rest) ← Reader.value .lax fuel 0 text
    return (seen, rest)

/-- The fields of an object up to its brace. The fuel bounds their number and the steps in
each. -/
def readFields : Nat → Fields → List Char → Option (Fields × List Char)
  | 0, _, _ => none
  | fuel + 1, seen, text =>
    match skipBlanks text with
    | '"' :: rest => do
      let (key, rest) ← Reader.string .strict fuel rest
      match skipBlanks rest with
      | ':' :: rest =>
        let (seen, rest) ← readField fuel key seen rest
        match skipBlanks rest with
        | ',' :: rest => readFields fuel seen rest
        | '\x7d' :: rest => return (seen, rest)
        | _ => none
      | _ => none
    | _ => none

/-- The names of the fields in order. -/
def fieldNames : List String := ["warn_on_redeclare", "report_callback_errors", "log_filter"]

/-- The items of an array up to its bracket, as the values of the named fields. -/
def readItems (fuel : Nat) : List String → Fields → List Char → Option (Fields × List Char)
  | [], _, _ => none
  | key :: keys, seen, text => do
    let (seen, rest) ← readField fuel key seen text
    match skipBlanks rest with
    | ',' :: rest => readItems fuel keys seen rest
    | ']' :: rest => return (seen, rest)
    | _ => none

/-- The settings after blanks, in either form. -/
def read (text : List Char) : Option (Fields × List Char) :=
  match skipBlanks text with
  | '\x7b' :: rest =>
    match skipBlanks rest with
    | '\x7d' :: rest => some ({}, rest)
    | rest => readFields (steps text) {} rest
  | '[' :: rest =>
    match skipBlanks rest with
    | ']' :: rest => some ({}, rest)
    | rest => readItems (steps text) fieldNames {} rest
  | _ => none

/-- The settings that a whole text writes, if it writes any. -/
def parse? (text : String) : Option Settings :=
  match read text.toList with
  | some (seen, rest) => if skipBlanks rest = [] then some seen.complete else none
  | none => none

end DynamicObjects.Settings
