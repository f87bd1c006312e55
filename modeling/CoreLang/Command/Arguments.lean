import CoreLang.Text.Decimal

/-!
# Command-line arguments

A tool declares its switches; everything else on the command line is positional.
Switches may stand anywhere. A switch is given by its long name after `--` or by
its letter after `-`, where several letters may share one `-`. The value of a
switch follows behind `=` or as the next argument. After `--` alone there are no
more switches.
-/

namespace CoreLang.Command

inductive SwitchForm where
  /-- Given at most once, without a value. -/
  | flag
  /-- Given any number of times, without a value. -/
  | counted
  /-- Given at most once, with a value. -/
  | valued
deriving Repr, DecidableEq, Inhabited

structure Switch where
  long : String
  letter : Option Char := none
  form : SwitchForm
deriving Repr, DecidableEq, Inhabited

/-- The arguments of a tool: positional ones in order, and the long names of the
switches given, each with its value. -/
structure Arguments where
  positional : List String := []
  switches : List (String × Option String) := []
deriving Repr, DecidableEq, Inhabited

namespace Arguments

def addPositional (arg : String) (a : Arguments) : Arguments :=
  { a with positional := arg :: a.positional }

def addSwitch (name : String) (value : Option String) (a : Arguments) : Arguments :=
  { a with switches := (name, value) :: a.switches }

/-- How often a switch was given. -/
def count (a : Arguments) (name : String) : Nat :=
  a.switches.countP (·.1 = name)

def has (a : Arguments) (name : String) : Bool :=
  0 < a.count name

/-- The value given to a switch. -/
def value? (a : Arguments) (name : String) : Option String :=
  (a.switches.find? (·.1 = name)).bind (·.2)

/-- Cuts `name=value` in two; there is no value without a `=`. -/
def splitValue (text : List Char) : String × Option String :=
  match text.dropWhile (· ≠ '=') with
  | _ :: value => (String.ofList (text.takeWhile (· ≠ '=')), some (String.ofList value))
  | [] => (String.ofList text, none)

/-- What an argument is by its form. -/
inductive Shape where
  /-- The end of the switches. -/
  | separator
  | long (name : String) (value : Option String)
  | letters (letters : List Char)
  | plain
deriving Repr, DecidableEq, Inhabited

/-- A single `-` is an ordinary argument. -/
def shape (arg : String) : Shape :=
  match arg.toList with
  | ['-', '-'] => .separator
  | '-' :: '-' :: text => let (name, value) := splitValue text; .long name value
  | ['-'] => .plain
  | '-' :: letters => .letters letters
  | _ => .plain

/-- The switches that letters behind one `-` stand for; none of them takes a value. -/
def ofLetters (switches : List Switch) (a : Arguments) : List Char → Option Arguments
  | [] => some a
  | letter :: letters => do
    let switch ← switches.find? (·.letter = some letter)
    if switch.form = .valued then none
    else (ofLetters switches a letters).map (addSwitch switch.long none)

/-- Sorts the arguments; `none` if one of them is not understood. -/
def sort (switches : List Switch) : List String → Option Arguments
  | [] => some {}
  | arg :: rest =>
    match shape arg with
    | .separator => some { positional := rest }
    | .plain => (sort switches rest).map (addPositional arg)
    | .letters letters => do
      let others ← sort switches rest
      ofLetters switches others letters
    | .long name value => do
      let switch ← switches.find? (·.long = name)
      match switch.form, value with
      | .valued, some value => (sort switches rest).map (addSwitch name (some value))
      | .valued, none =>
        match rest with
        | next :: rest' =>
          if shape next = .plain then (sort switches rest').map (addSwitch name (some next))
          else none
        | [] => none
      | _, some _ => none
      | _, none => (sort switches rest).map (addSwitch name none)

/-- Whether no switch is given more often than its form allows. -/
def withinLimits (switches : List Switch) (a : Arguments) : Bool :=
  switches.all fun switch => switch.form = .counted || a.count switch.long ≤ 1

/-- Reads the arguments of a tool that takes `arity` positional ones, none of them
empty. -/
def parse? (switches : List Switch) (arity : Nat) (args : List String) : Option Arguments := do
  let a ← sort switches args
  let complete := a.positional.length = arity ∧ a.positional.all (· ≠ "")
  if complete ∧ withinLimits switches a then some a else none

end Arguments

/-- Reads a size: an unsigned number of 64 bits, with an optional `+`. -/
def size? (text : String) : Option Nat := do
  let n ← match text.toList with
    | '+' :: digits => Text.Decimal.natural? digits
    | digits => Text.Decimal.natural? digits
  if n < UInt64.size then some n else none

end CoreLang.Command
