import CoreLang.Command.Interpreter
import CoreLang.Command.TokenLister

/-!
# The command line

One executable for both tools: called by a name that ends in `tokens` it is the
token lister, by any other the interpreter.
-/

namespace CoreLang.Command

/-- Looks at a file of the system. A directory opens and then cannot be read, so an
error of type that names the file comes from a path through something else. -/
def lookUp (name : String) : IO FileEntry := do
  try
    return .contents (← IO.FS.readBinFile name).data.toList
  catch
    | .noFileOrDirectory .. => return .unavailable .missing
    | .permissionDenied .. => return .unavailable .denied
    | .inappropriateType (some _) .. => return .unavailable .notDirectory
    | .inappropriateType none .. => return .directory
    | _ => return .unavailable .missing

/-- The files that a command line can mean, looked at beforehand. -/
def filesOf (args : List String) : IO (String → FileEntry) := do
  let entries ← args.mapM fun name => return (name, ← lookUp name)
  return fun name => (entries.lookup name).getD (.unavailable .missing)

end CoreLang.Command

open CoreLang CoreLang.Command

def main (args : List String) : IO UInt32 := do
  let tool := ((← IO.appPath).fileStem).getD ""
  let files ← filesOf args
  let report :=
    if tool.endsWith "tokens" then TokenLister.run args files
    else Interpreter.run args files ampleSteps
  let out ← IO.getStdout
  out.write ⟨report.output.toArray⟩
  out.flush
  IO.eprint report.diagnostics
  return report.code.toUInt32
