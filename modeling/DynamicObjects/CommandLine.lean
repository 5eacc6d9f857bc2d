import DynamicObjects.CommandLine.Directory
import DynamicObjects.Session
import DynamicObjects.Settings.Document

/-!
# The command line

One run reads a document, applies one operation to it and prints the result. Settings
come from the file named after `--config`, or else from the environment; `--reverse` may
stand anywhere and may be repeated.

A run sees the outside through its `Surroundings` only, so it can be followed without a
file system. What goes wrong is a `Trouble`; of several troubles the settings come first,
then the operation, then the input.

* `CommandLine.run`: a run.
* `CommandLine.splitConfig_of_not_mem`, `CommandLine.run_no_operation`: runs without the flag
  for settings, and runs without an operation.
-/

namespace DynamicObjects.CommandLine

/-! ## Operations -/

/-- The operations of the command line. -/
inductive Operation where
  | sorted | keys | values | items | pairs | len | type
  deriving DecidableEq, Repr

namespace Operation

/-- The word for an operation. -/
def name : Operation → String
  | sorted => "sorted"
  | keys => "keys"
  | values => "values"
  | items => "items"
  | pairs => "pairs"
  | len => "len"
  | type => "type"

/-- Every operation. -/
def all : List Operation := [sorted, keys, values, items, pairs, len, type]

def ofName? (word : String) : Option Operation := all.find? fun op => op.name = word

/-- The named operation behind an operation. -/
def builtin : Operation → Builtin
  | sorted => .sorted
  | keys => .keys
  | values => .values
  | items => .items
  | pairs => .pairs
  | len => .len
  | type => .typeOf

/-- What an operation is called with. Sorting uses no comparison of its own. -/
def arguments (op : Operation) (reverse : Bool) (v : Value) : List Value :=
  match op with
  | sorted => [v, .none, .boolean reverse]
  | _ => [v]

end Operation

/-! ## Arguments -/

/-- Where the settings come from. -/
inductive SettingsSource where
  | environment
  | file (path : String)
  /-- The flag stands last, without a path. -/
  | missingPath
  deriving DecidableEq, Repr

/-- The flag for descending order. -/
def reverseFlag : String := "--reverse"

/-- The flag for a file of settings. -/
def configFlag : String := "--config"

/-- The source of the settings, and the other arguments. Only the first flag counts. -/
def splitConfig : List String → SettingsSource × List String
  | [] => (.environment, [])
  | arg :: rest =>
    if arg = configFlag then
      match rest with
      | [] => (.missingPath, [])
      | path :: rest => (.file path, rest)
    else
      let (source, others) := splitConfig rest
      (source, arg :: others)

/-- What is asked for. -/
inductive Request where
  | help
  | unknown (word : String)
  | apply (op : Operation) (path : Option String)
  deriving DecidableEq, Repr

/-- What the arguments without flags ask for. Further arguments are passed over. -/
def Request.ofArguments : List String → Request
  | [] => .help
  | word :: rest =>
    if word ∈ ["-h", "--help", "help"] then .help
    else match Operation.ofName? word with
      | some op => .apply op rest.head?
      | none => .unknown word

/-! ## Texts -/

def helpText : String :=
  "\n".intercalate
    ["Extend CLI",
      "",
      "Usage:",
      "  extend <operation> [file.json]",
      "",
      "Reads a JSON document from the file (or stdin), applies one operation and",
      "prints the JSON result.",
      "",
      "Operations:",
      "  sorted   Sorted copy of a list, or the sorted values of a map",
      "  keys     Indices of a list, or the keys of a map",
      "  values   Values as a list",
      "  items    \x7bkey, value\x7d maps",
      "  pairs    [key, value] pairs",
      "  len      Number of elements, keys or characters",
      "  type     Coarse type label",
      "",
      "Flags:",
      "  --reverse          Sort in descending order (sorted only)",
      "  --config <file>    Load runtime settings from a JSON file",
      "",
      "Environment:",
      "  RUST_LOG                 Log filter (default from config, \x60warn\x60)",
      "  EXTEND_WARN_REDECLARE    Warn when a class name is registered twice",
      "  EXTEND_REPORT_ERRORS     Report callback errors before they propagate",
      "  EXTEND_LOG               Default log filter",
      "",
      ""]

/-- What can go wrong in a run. -/
inductive Trouble where
  | missingConfigPath
  | unreadableConfig (path : String) (trouble : FileTrouble)
  | invalidConfig (path : String)
  | unknownOperation (word : String)
  | unreadableInput (trouble : FileTrouble)
  | invalidInput
  | failed (failure : Failure)
  /-- The operation has no answer. -/
  | stuck (reason : Stuck)

namespace Trouble

/-- The line that says what went wrong. -/
def message : Trouble → String
  | missingConfigPath => "Error: --config expects a file path."
  | unreadableConfig path trouble =>
    "Error: could not read config " ++ path ++ ": " ++ trouble.message
  | invalidConfig path => "Error: invalid config " ++ path ++ ": no settings document"
  | unknownOperation word => "Error: unknown operation \x60" ++ word ++ "\x60"
  | unreadableInput trouble => "Error: could not read input: " ++ trouble.message
  | invalidInput => "Error: input is not valid JSON: no document"
  | failed failure => failure.message
  | stuck _ => "Error: no answer"

/-- Whether the help text is shown as well. -/
def showsHelp : Trouble → Bool
  | unknownOperation _ => true
  | _ => false

end Trouble

/-! ## Runs -/

/-- What a run sees of the outside. -/
structure Surroundings (m : Type → Type) where
  fileText : String → m (Except FileTrouble String)
  inputText : m (Except FileTrouble String)
  environment : Entries String String

/-- What a run leaves. -/
structure Output where
  code : Nat
  stdout : String
  stderr : String
  deriving DecidableEq, Repr

/-- The result of an operation on a value, as an indented document. -/
def applyOperation (op : Operation) (settings : Settings) (reverse : Bool) (v : Value) :
    Except Trouble String :=
  let scope : Scope := { settings, recording := false }
  match @Builtin.apply Session.host op.builtin (op.arguments reverse v) scope {} with
  | .done result w =>
    match w.document? result with
    | some document => .ok (document.pretty ++ "\n")
    | none => .error (.stuck .exhausted)
  | .failed e _ => .error (.failed e)
  | .stuck reason => .error (.stuck reason)

/-- What a run without trouble prints for a text. -/
def applyToText (op : Operation) (settings : Settings) (reverse : Bool) (text : String) :
    Except Trouble String :=
  match Json.parse? text with
  | some document => applyOperation op settings reverse (Value.ofJson document)
  | none => .error .invalidInput

section Runs

variable {m : Type → Type} [Monad m] (surroundings : Surroundings m)

def settingsFrom : SettingsSource → m (Except Trouble Settings)
  | .environment => return .ok (Settings.ofEnvironment surroundings.environment)
  | .missingPath => return .error .missingConfigPath
  | .file path => do
    match (← surroundings.fileText path) with
    | .error trouble => return .error (.unreadableConfig path trouble)
    | .ok text =>
      match Settings.parse? text with
      | some settings => return .ok settings
      | none => return .error (.invalidConfig path)

/-- What a request prints. -/
def answer (settings : Settings) (reverse : Bool) : Request → m (Except Trouble String)
  | .help => return .ok helpText
  | .unknown word => return .error (.unknownOperation word)
  | .apply op path => do
    let text ← match path with
      | some path => surroundings.fileText path
      | none => surroundings.inputText
    match text with
    | .error trouble => return .error (.unreadableInput trouble)
    | .ok text => return applyToText op settings reverse text

/-- What a run leaves after its answer or its trouble. -/
def Output.ofAnswer : Except Trouble String → Output
  | .ok text => ⟨0, text, ""⟩
  | .error trouble =>
    ⟨1, if trouble.showsHelp then helpText else "", trouble.message ++ "\n"⟩

/-- A run with arguments. -/
def run (args : List String) : m Output := do
  let reverse := args.contains reverseFlag
  let (source, rest) := splitConfig (args.filter fun arg => arg != reverseFlag)
  match (← settingsFrom surroundings source) with
  | .error trouble => return Output.ofAnswer (.error trouble)
  | .ok settings =>
    return Output.ofAnswer (← answer surroundings settings reverse (Request.ofArguments rest))

end Runs

/-! ## Simple runs -/

theorem splitConfig_of_not_mem {args : List String} (h : configFlag ∉ args) :
    splitConfig args = (.environment, args) := by
  induction args with
  | nil => rfl
  | cons arg rest ih =>
    have harg : arg ≠ configFlag := fun heq => h (heq ▸ List.mem_cons_self)
    have hrest : configFlag ∉ rest := fun hmem => h (List.mem_cons_of_mem arg hmem)
    simp [splitConfig, harg, ih hrest]

theorem run_no_operation {m : Type → Type} [Monad m] [LawfulMonad m]
    (surroundings : Surroundings m) : run surroundings [] = pure ⟨0, helpText, ""⟩ := by
  simp [run, splitConfig, settingsFrom, answer, Request.ofArguments, Output.ofAnswer]

end DynamicObjects.CommandLine
