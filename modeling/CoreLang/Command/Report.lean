import CoreLang.Session

/-!
# What a tool gives

A tool ends with a report: an exit code and what goes to the two output channels.
-/

namespace CoreLang.Command

structure Report where
  code : Nat
  output : List UInt8 := []
  diagnostics : String := ""
deriving Repr, DecidableEq, Inhabited

/-- The exit code for arguments that are not understood. -/
def usageCode : Nat := 2

/-- The exit code of a tool that broke down. -/
def brokenCode : Nat := 101

/-- The report of work that a fault ended: what was written stays, and the message
is the last line of the diagnostics. -/
def Report.ofError (error : Error) (output : List UInt8 := []) (diagnostics : String := "") :
    Report :=
  { code := error.exitCode, output := output, diagnostics := diagnostics ++ error.message ++ "\n" }

/-- The report of work that ended early in whatever way. -/
def Report.ofStop (stop : Stop Error) (output : List UInt8) (diagnostics : String) : Report :=
  match stop with
  | .fault error => .ofError error output diagnostics
  | .unnamed symbol =>
    { code := 70, output := output
      diagnostics := diagnostics ++ "Internal error: symbol #" ++ Text.Decimal.ofNat symbol.index
        ++ " has no name.\n" }
  | .dangling id => .ofError (.tree (.unknownNode id)) output diagnostics
  | .overwide width =>
    { code := brokenCode, output := output
      diagnostics := diagnostics ++ "Internal error: no line can start in column "
        ++ Text.Decimal.ofNat width ++ ".\n" }
  | .unfinished =>
    { code := 70, output := output
      diagnostics := diagnostics ++ "Internal error: no more steps.\n" }

/-- The log filter that a count of `-v` switches asks for. -/
def logDirective : Nat → String
  | 0 => "core_interp=warn"
  | 1 => "core_interp=debug"
  | _ => "core_interp=trace"

end CoreLang.Command
