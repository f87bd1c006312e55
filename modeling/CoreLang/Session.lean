import CoreLang.Error
import CoreLang.Parse
import CoreLang.Program.Printer
import CoreLang.Run

/-!
# Sessions

A session parses a text, writes the program in its canonical form if that is
wanted, and runs it. The canonical text is followed by an empty line.
-/

namespace CoreLang

structure Config where
  maxNodes : Nat := Tree.defaultCapacity
  print : Bool := true
deriving Repr, DecidableEq, Inhabited

namespace Parsed

/-- A run from the state `m`: how it ended, and the state it left. -/
def execute (p : Parsed) (steps : Nat) (m : Machine) : Except (Stop RuntimeError) Unit × Machine :=
  match p.tree.run steps m with
  | .ok () m' => (.ok (), m')
  | .error stop m' => (.error stop, m')

/-- Runs a program and gives its counters. -/
def runOnce (p : Parsed) (steps : Nat) (input : DataStream) (sink : Sink) :
    Except (Stop Error) Counters × Sink :=
  match p.execute steps (.start p.symbols input sink) with
  | (.ok (), m) => (.ok m.counters, m.sink)
  | (.error stop, m) => (.error (stop.mapFault .runtime), m.sink)

/-- Writes a program if `print` says so, then runs it. -/
def perform (p : Parsed) (print : Bool) (steps : Nat) (input : DataStream) (sink : Sink) :
    Except (Stop Error) Counters × Sink :=
  if print then
    match p.tree.render p.symbols with
    | .error stop => (.error (stop.mapFault .tree), sink)
    | .ok text =>
      match sink.writeText (text ++ "\n") with
      | (.error reason, sink) => (.error (.fault (.output reason)), sink)
      | (.ok (), sink) => p.runOnce steps input sink
  else p.runOnce steps input sink

end Parsed

/-- The whole session on a text. -/
def interpret (source : String) (config : Config) (steps : Nat) (input : DataStream) (sink : Sink) :
    Except (Stop Error) Counters × Sink :=
  match parse source config.maxNodes with
  | .error error => (.error (.fault (.parse error)), sink)
  | .ok parsed => parsed.perform config.print steps input sink

/-- More steps than can be taken in practice. -/
def ampleSteps : Nat := 0x4000000000000000

end CoreLang
