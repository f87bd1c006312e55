import CoreLang.Command.Arguments
import CoreLang.Command.Folder
import CoreLang.Command.Report
import CoreLang.Tree.Outline

/-!
# The interpreter tool

Reads a program and its data from two files, writes the program in canonical form
and runs it. The text is parsed before the data is looked for.
-/

namespace CoreLang.Command.Interpreter

def switches : List Switch :=
  [ { long := "verbose", letter := some 'v', form := .counted },
    { long := "max-nodes", form := .valued },
    { long := "no-print", form := .flag },
    { long := "dump-tree", form := .flag } ]

def usage : String :=
  "Usage: [-v] [--max-nodes N] [--no-print] [--dump-tree] SOURCE DATA\n"

structure Options where
  source : String
  data : String
  config : Config
  dumpTree : Bool
deriving Repr, DecidableEq, Inhabited

/-- The options that the arguments ask for. -/
def options? (args : List String) : Option Options := do
  let a ← Arguments.parse? switches 2 args
  let maxNodes ← match a.value? "max-nodes" with
    | some text => size? text
    | none => some Tree.defaultCapacity
  match a.positional with
  | [source, data] =>
    some { source := source, data := data
           config := { maxNodes := maxNodes, print := !a.has "no-print" }
           dumpTree := a.has "dump-tree" }
  | _ => none

/-- The tool with its options read. -/
def perform (options : Options) (files : String → FileEntry) (steps : Nat) : Report :=
  match (files options.source).source options.source with
  | .error error => .ofError error
  | .ok text =>
    match parse text options.config.maxNodes with
    | .error error => .ofError (.parse error)
    | .ok parsed =>
      match if options.dumpTree then parsed.tree.outline steps else .ok "" with
      | .error stop => .ofStop (stop.mapFault .tree) [] ""
      | .ok outline =>
        match (files options.data).data options.data with
        | .error error => .ofError error [] outline
        | .ok input =>
          match parsed.perform options.config.print steps input {} with
          | (.ok _, sink) => { code := 0, output := sink.written.toList, diagnostics := outline }
          | (.error stop, sink) => .ofStop stop sink.written.toList outline

def run (args : List String) (files : String → FileEntry) (steps : Nat) : Report :=
  match options? args with
  | some options => perform options files steps
  | none => { code := usageCode, diagnostics := usage }

end CoreLang.Command.Interpreter
