import CoreLang.Parse.Error
import CoreLang.Run.Error

/-!
# Faults of a session

Whatever can be reported at the end of a session, its message, and the exit code
that tells its class.
-/

namespace CoreLang

inductive Error where
  | parse (error : ParseError)
  | runtime (error : RuntimeError)
  | tree (error : TreeError)
  | openFile (path reason : String)
  | output (reason : String)
deriving Repr, DecidableEq, Inhabited

namespace Error

def message : Error → String
  | .parse error => error.message
  | .runtime error => error.message
  | .tree error => error.message
  | .openFile path reason => "Error opening file '" ++ path ++ "': " ++ reason
  | .output reason => "Error writing output: " ++ reason

/-- 65 for a faulty text, 66 for a file that cannot be had, 70 for a fault of the
tree wherever it shows, 1 for a failed run. -/
def exitCode : Error → Nat
  | .parse (.tree _) | .runtime (.tree _) | .tree _ => 70
  | .parse _ => 65
  | .openFile .. => 66
  | .runtime _ | .output _ => 1

end Error

end CoreLang
