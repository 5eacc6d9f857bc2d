import DynamicObjects.Entries
import DynamicObjects.Number.Layout

/-!
# Files by path

A `Directory` is a flat directory of text files. A path that is too long is refused as it
is; any other is walked part by part: empty parts and single dots stay where they are, two
dots leave the directory, and only a directory can be walked further. What lies outside
the directory holds no files.

* `Directory.read_of_find?`: a plain name reads the file of that name.
-/

namespace DynamicObjects

open Number

/-- Why a file cannot be read. -/
inductive FileTrouble where
  | notFound
  | notDirectory
  | isDirectory
  | nameTooLong
  | notText
  /-- Another error of the system, by its text and number. -/
  | other (text : String) (code : Nat)
  deriving DecidableEq, Repr

/-- The text of an error of the system. -/
def systemErrorText (text : String) (code : Nat) : String :=
  text ++ " (os error " ++ digitText code ++ ")"

/-- The text that says why a file cannot be read. -/
def FileTrouble.message : FileTrouble → String
  | notFound => systemErrorText "No such file or directory" 2
  | notDirectory => systemErrorText "Not a directory" 20
  | isDirectory => systemErrorText "Is a directory" 21
  | nameTooLong => systemErrorText "File name too long" 36
  | notText => "stream did not contain valid UTF-8"
  | other text code => systemErrorText text code

/-- Text files by name. -/
abbrev Directory := Entries String String

namespace Directory

/-- The longest name of a file, in bytes. -/
def longestName : Nat := 255

/-- The longest path, in bytes. -/
def longestPath : Nat := 4095

/-- Where a walk stands: in the directory, or outside of it. -/
inductive Place where
  | inside
  | outside
  deriving DecidableEq, Repr

/-- Reads the file at the end of a path, walked part by part. -/
def walk (files : Directory) : Place → List String → Except FileTrouble String
  | _, [] => .error .isDirectory
  | place, part :: rest =>
    if part = "" ∨ part = "." then walk files place rest
    else if part = ".." then walk files .outside rest
    else if longestName < part.utf8ByteSize then .error .nameTooLong
    else match place with
      | .outside => .error .notFound
      | .inside =>
        match Entries.find? part files with
        | none => .error .notFound
        | some text => if rest = [] then .ok text else .error .notDirectory

/-- The parts of a path, separated by slashes. -/
def parts (path : List Char) : List (List Char) :=
  match path with
  | [] => [[]]
  | '/' :: rest => [] :: parts rest
  | c :: rest =>
    match parts rest with
    | [] => [[c]]
    | part :: more => (c :: part) :: more

def read (files : Directory) (path : String) : Except FileTrouble String :=
  if path = "" then .error .notFound
  else if longestPath < path.utf8ByteSize then .error .nameTooLong
  else
    let place := if path.toList.head? = some '/' then Place.outside else .inside
    walk files place ((parts path.toList).map String.ofList)

theorem parts_of_no_slash {path : List Char} (h : '/' ∉ path) : parts path = [path] := by
  induction path with
  | nil => rfl
  | cons c rest ih =>
    have hc : c ≠ '/' := fun heq => h (heq ▸ List.mem_cons_self)
    have hrest : '/' ∉ rest := fun hmem => h (List.mem_cons_of_mem c hmem)
    unfold parts
    split
    · contradiction
    · simp_all
    · simp_all

theorem read_of_find? {files : Directory} {name text : String} (hslash : '/' ∉ name.toList)
    (hempty : name ≠ "") (hdot : name ≠ ".") (hdots : name ≠ "..")
    (hshort : name.utf8ByteSize ≤ longestName) (h : Entries.find? name files = some text) :
    files.read name = .ok text := by
  have hhead : name.toList.head? ≠ some '/' := fun heq => hslash (List.mem_of_head? heq)
  have hpath : ¬ longestPath < name.utf8ByteSize :=
    Nat.not_lt.mpr (Nat.le_trans hshort (by decide))
  simp [read, walk, parts_of_no_slash hslash, hempty, hdot, hdots, hhead, Nat.not_lt.mpr hshort,
    hpath, h]

end Directory

end DynamicObjects
