import CoreLang.Session

/-!
# Files by path

A tool is given paths and works on what they lead to: `FileEntry`. A `Folder` holds
the files a tool may meet, and `Folder.find` walks a path through it step by step,
so that a path through something that is no directory leads nowhere, even if its
next step goes back.
-/

namespace CoreLang.Command

/-- Why a path leads to nothing that can be opened. -/
inductive OpenFault where
  | missing
  | notDirectory
  | denied
deriving Repr, DecidableEq, Inhabited

def OpenFault.reason : OpenFault → String
  | .missing => "No such file or directory (os error 2)"
  | .notDirectory => "Not a directory (os error 20)"
  | .denied => "Permission denied (os error 13)"

/-- What a path leads to. -/
inductive FileEntry where
  | unavailable (fault : OpenFault)
  | directory
  | contents (bytes : List UInt8)
deriving Repr, DecidableEq, Inhabited

namespace FileEntry

def directoryReason : String := "Is a directory (os error 21)"

def encodingReason : String := "stream did not contain valid UTF-8"

/-- A file as a program text. -/
def source (path : String) : FileEntry → Except Error String
  | .unavailable fault => .error (.openFile path fault.reason)
  | .directory => .error (.openFile path directoryReason)
  | .contents bytes =>
    match Text.Utf8.decode? bytes with
    | some text => .ok text
    | none => .error (.openFile path encodingReason)

/-- A file as data. A directory can be opened, but not read. -/
def data (path : String) : FileEntry → Except Error DataStream
  | .unavailable fault => .error (.openFile path fault.reason)
  | .directory => .ok (.ofBytes [] (some directoryReason))
  | .contents bytes => .ok (.ofBytes bytes none)

end FileEntry

/-- The steps of a path: what stands between its slashes, the empty steps included. -/
def pathSteps : List Char → List (List Char)
  | [] => [[]]
  | c :: cs =>
    match c, pathSteps cs with
    | '/', steps => [] :: steps
    | c, step :: steps => (c :: step) :: steps
    | c, [] => [[c]]

/-- Where a walk stands: in the folder or below it, in a directory above it, or
somewhere else, of which nothing is known. -/
inductive Place where
  | inside (names : List (List Char))
  | above
  | elsewhere
deriving Repr, DecidableEq, Inhabited

/-- The place one step on. An empty step and a single dot stay. -/
def Place.move (place : Place) (step : List Char) : Place :=
  match step, place with
  | [], _ => place
  | ['.'], _ => place
  | ['.', '.'], .inside [] => .above
  | ['.', '.'], .inside (name :: names) => .inside (name :: names).dropLast
  | ['.', '.'], _ => .above
  | name, .inside names => .inside (names ++ [name])
  | _, _ => .elsewhere

/-- Files under their names, each name as the steps that lead to it. -/
structure Folder where
  files : List (List (List Char) × FileEntry)
deriving Repr, DecidableEq, Inhabited

namespace Folder

def ofFiles (files : List (String × FileEntry)) : Folder :=
  ⟨files.map fun (name, entry) => (pathSteps name.toList, entry)⟩

/-- What stands at a place. The folder itself, whatever holds a file, and the
directories above are directories. -/
def entryAt (folder : Folder) : Place → FileEntry
  | .above => .directory
  | .elsewhere => .unavailable .missing
  | .inside [] => .directory
  | .inside names =>
    match folder.files.lookup names with
    | some entry => entry
    | none =>
      if folder.files.any fun (other, _) => names.isPrefixOf other then .directory
      else .unavailable .missing

/-- What the remaining steps lead to from a place. Only a directory can be left. -/
def walk (folder : Folder) (place : Place) : List (List Char) → FileEntry
  | [] => folder.entryAt place
  | step :: steps =>
    match folder.entryAt place with
    | .directory => walk folder (place.move step) steps
    | .contents _ => .unavailable .notDirectory
    | .unavailable fault => .unavailable fault

/-- What a path leads to. A path that starts with a slash starts above the folder,
and an empty path leads nowhere. -/
def find (folder : Folder) (path : String) : FileEntry :=
  match path.toList with
  | [] => .unavailable .missing
  | '/' :: steps => folder.walk .above (pathSteps steps)
  | steps => folder.walk (.inside []) (pathSteps steps)

end Folder

end CoreLang.Command
