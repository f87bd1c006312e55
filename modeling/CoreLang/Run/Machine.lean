import CoreLang.Environment
import CoreLang.Run.Data
import CoreLang.Run.Sink
import CoreLang.Stop
import CoreLang.Tree

/-!
# The state of a run

What a running program can change: its variables, the data still ahead, the
output so far, and four counters. `RunM` carries the state past a fault, so what
was stored, read, written and counted before it stays.
-/

namespace CoreLang

/-- How often something was done. The counts are natural numbers and not 64-bit ones: they
start at zero and are raised by one at a time, so the two are told apart only after something
was done 2 ^ 64 times, which takes centuries at a billion times a second. -/
structure Counters where
  statements : Nat := 0
  conditions : Nat := 0
  comparisons : Nat := 0
  iterations : Nat := 0
deriving Repr, DecidableEq, Inhabited

structure Machine where
  env : Environment
  input : DataStream
  sink : Sink
  counters : Counters := {}
deriving Repr, DecidableEq, Inhabited

/-- The state before a first run. -/
def Machine.start (symbols : SymbolTable) (input : DataStream) (sink : Sink) : Machine :=
  { env := .ofSymbols symbols, input := input, sink := sink }

abbrev RunM := EStateM (Stop RuntimeError) Machine

namespace RunM

variable {α : Type}

/-- A result that was found without touching the state. -/
def ofExcept (result : Except (Stop RuntimeError) α) : RunM α := fun m =>
  match result with
  | .ok a => .ok a m
  | .error stop => .error stop m

/-- Stops with a fault. -/
def fault (error : RuntimeError) : RunM α := fun m => .error (.fault error) m

def environment : RunM Environment := fun m => .ok m.env m

/-- Changes the counters. -/
def count (f : Counters → Counters) : RunM Unit := fun m =>
  .ok () { m with counters := f m.counters }

/-- Stores a value; `name` is how the variable is called if there is no such one. -/
def store (symbol : Symbol) (value : Int64) (name : String) (line : Nat) : RunM Unit := fun m =>
  match m.env.set? symbol value with
  | some env => .ok () { m with env := env }
  | none => .error (.fault (.unknownVariable name line)) m

/-- Stores a value in the variable of a name. -/
def storeByName (name : String) (value : Int64) (line : Nat) : RunM Unit := fun m =>
  match m.env.setByName? name value with
  | some env => .ok () { m with env := env }
  | none => .error (.fault (.unknownVariable name line)) m

/-- Takes the next value from the data. -/
def nextValue (line : Nat) : RunM Int64 := fun m =>
  match m.input.next line with
  | (.ok v, input) => .ok v { m with input := input }
  | (.error error, input) => .error (.fault error) { m with input := input }

/-- Writes a text to the output. -/
def emit (text : String) (line : Nat) : RunM Unit := fun m =>
  match m.sink.writeText text with
  | (.ok (), sink) => .ok () { m with sink := sink }
  | (.error reason, sink) => .error (.fault (.io reason line)) { m with sink := sink }

/-- Flushes the output. -/
def flush (line : Nat) : RunM Unit := fun m =>
  match m.sink.flush with
  | .ok () => .ok () m
  | .error reason => .error (.fault (.io reason line)) m

end RunM

end CoreLang
