/-!
# Decimal numbers

Reading whole numbers in base ten. A number is one or more ASCII digits; a signed
number may have one `+` or `-` before them. Nothing else is allowed, so blanks
and separators between digits are refused.
-/

namespace CoreLang.Text.Decimal

/-- The value of a run of digits, most significant first. -/
def value (digits : List Char) : Nat :=
  Nat.ofDigitChars 10 digits 0

/-- Reads an unsigned number. -/
def natural? (text : List Char) : Option Nat :=
  if text ≠ [] ∧ text.all Char.isDigit then some (value text) else none

/-- Reads a number with an optional sign. -/
def signed? : List Char → Option Int
  | '-' :: digits => (natural? digits).map fun n => -(n : Int)
  | '+' :: digits => (natural? digits).map fun n => (n : Int)
  | digits => (natural? digits).map fun n => (n : Int)

/-- The digits of a natural number. -/
def digits (n : Nat) : List Char :=
  Nat.toDigits 10 n

/-- A natural number in base ten. -/
def ofNat (n : Nat) : String :=
  String.ofList (digits n)

/-- An integer in base ten, with `-` before a negative one. -/
def ofInt : Int → String
  | .ofNat n => ofNat n
  | .negSucc n => "-" ++ ofNat (n + 1)

end CoreLang.Text.Decimal
