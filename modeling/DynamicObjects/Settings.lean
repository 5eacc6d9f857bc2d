import DynamicObjects.Json.Tree

/-!
# Settings

The knobs of a session, their defaults, their document, and how the environment sets
them. A flag in the environment is one of a few words, blanks around it and the case
of its letters aside; any other text leaves the flag alone.
-/

namespace DynamicObjects

/-- The knobs of a session. -/
structure Settings where
  /-- Whether a registry warns when a name is registered again for another class. -/
  warnOnRedeclare : Bool := false
  /-- Whether errors that leave a visit are reported. -/
  reportCallbackErrors : Bool := true
  /-- The log filter of the command line. -/
  logFilter : String := "warn"
  deriving DecidableEq, Repr, Inhabited

namespace Settings

/-- The settings as a document, in the order of the fields. -/
def toJson (s : Settings) : Json :=
  .object [("warn_on_redeclare", .boolean s.warnOnRedeclare),
    ("report_callback_errors", .boolean s.reportCallbackErrors),
    ("log_filter", .string s.logFilter)]

/-! ## Environment -/

/-- The characters with the property White_Space. -/
def isWhiteSpace (c : Char) : Bool :=
  let n := c.toNat
  (9 ≤ n && n ≤ 13) || n == 32 || n == 0x85 || n == 0xA0 || n == 0x1680 ||
    (0x2000 ≤ n && n ≤ 0x200A) || n == 0x2028 || n == 0x2029 || n == 0x202F ||
    n == 0x205F || n == 0x3000

/-- The text without white space at its ends, capital letters of ASCII made small. -/
def normalizeFlag (text : String) : String :=
  let inner := ((text.toList.dropWhile isWhiteSpace).reverse.dropWhile isWhiteSpace).reverse
  String.ofList (inner.map Char.toLower)

/-- The flag that a text spells, if it spells one. -/
def parseFlag? (text : String) : Option Bool :=
  let word := normalizeFlag text
  if word ∈ ["1", "true", "yes", "on"] then some true
  else if word ∈ ["0", "false", "no", "off"] then some false
  else none

/-- The defaults, with what the environment sets. -/
def ofEnvironment (environment : Entries String String) : Settings :=
  let flag (name : String) (default : Bool) : Bool :=
    ((Entries.find? name environment).bind parseFlag?).getD default
  let initial : Settings := {}
  { warnOnRedeclare := flag "EXTEND_WARN_REDECLARE" initial.warnOnRedeclare
    reportCallbackErrors := flag "EXTEND_REPORT_ERRORS" initial.reportCallbackErrors
    logFilter := (Entries.find? "EXTEND_LOG" environment).getD initial.logFilter }

end Settings

end DynamicObjects
