import CoreLang.Tree.Error

/-!
# Faults of running programs

Why a run stopped: a variable without a value, data that is missing or no
number, a result that does not fit, a reader or a sink that failed. Every one is
reported on the line of the construct that met it. A tree that is no program at
all gives a fault of the tree.
-/

namespace CoreLang

inductive RuntimeError where
  | uninitializedVariable (name : String) (line : Nat)
  | unknownVariable (name : String) (line : Nat)
  | inputExhausted (line : Nat)
  | inputNotInteger (token : String) (line : Nat)
  | overflow (line : Nat)
  | io (reason : String) (line : Nat)
  | tree (error : TreeError)
deriving Repr, DecidableEq, Inhabited

namespace RuntimeError

/-- The line a fault is reported on; a fault of the tree belongs to no line. -/
def line? : RuntimeError → Option Nat
  | .uninitializedVariable _ line
  | .unknownVariable _ line
  | .inputExhausted line
  | .inputNotInteger _ line
  | .overflow line
  | .io _ line => some line
  | .tree _ => none

/-- What is wrong, without the line. -/
def reason : RuntimeError → String
  | .uninitializedVariable name _ => "Uninitialized variable " ++ name
  | .unknownVariable name _ => "Unknown variable '" ++ name ++ "'."
  | .inputExhausted _ => "Input is empty."
  | .inputNotInteger token _ => "Input is not an integer: " ++ token
  | .overflow _ => "Integer overflow while trying to compute result."
  | .io reason _ => "I/O error: " ++ reason
  | .tree error => error.message

def message (e : RuntimeError) : String :=
  match e.line? with
  | some line => "Error on line " ++ Text.Decimal.ofNat line ++ ": " ++ e.reason
  | none => e.reason

end RuntimeError

/-- An operator with its overflow reported on a line. -/
def Operator.apply (op : Operator) (a b : Int64) (line : Nat) : Except RuntimeError Int64 :=
  match op.checked? a b with
  | some v => .ok v
  | none => .error (.overflow line)

end CoreLang
