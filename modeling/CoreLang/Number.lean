import CoreLang.Text.Decimal

/-!
# Values and their arithmetic

Every value is a signed 64-bit number. Sums, differences and products are taken
exactly, over the integers, and kept only if they fit.
-/

namespace CoreLang

/-- The operators of expressions. -/
inductive Operator where
  | add
  | sub
  | mul
deriving Repr, DecidableEq, Inhabited

/-- The comparisons of conditions. -/
inductive Comparator where
  | notEqual
  | equal
  | less
  | greater
  | lessEqual
  | greaterEqual
deriving Repr, DecidableEq, Inhabited

namespace Number

/-- The value of an integer, if it fits 64 bits. -/
def ofInt? (n : Int) : Option Int64 :=
  if Int64.minValue.toInt ≤ n ∧ n ≤ Int64.maxValue.toInt then some (Int64.ofInt n) else none

/-- Reads a value: an optional sign, digits, and a number that fits. -/
def parse? (text : String) : Option Int64 :=
  (Text.Decimal.signed? text.toList).bind ofInt?

/-- A value in base ten. -/
def text (v : Int64) : String :=
  Text.Decimal.ofInt v.toInt

/-- The value of an integer, where there is one, denotes that integer. -/
theorem ofInt?_eq_some_iff {n : Int} {v : Int64} : ofInt? n = some v ↔ v.toInt = n := by
  unfold ofInt?
  rw [Int64.toInt_minValue, Int64.toInt_maxValue]
  split
  · next fits =>
    constructor
    · intro h
      obtain rfl := Option.some.inj h
      exact Int64.toInt_ofInt_of_le (by omega) (by omega)
    · rintro rfl
      rw [Int64.ofInt_toInt]
  · next out =>
    constructor
    · intro h
      cases h
    · rintro rfl
      have least := v.le_toInt
      have most := v.toInt_lt
      omega

theorem ofInt?_eq_none_iff {n : Int} :
    ofInt? n = none ↔ ¬ (Int64.minValue.toInt ≤ n ∧ n ≤ Int64.maxValue.toInt) := by
  unfold ofInt?
  split <;> simp_all

end Number

namespace Operator

/-- The operator over the integers, where nothing overflows. -/
def ofInts : Operator → Int → Int → Int
  | .add, a, b => a + b
  | .sub, a, b => a - b
  | .mul, a, b => a * b

/-- The operator on values: `none` if the exact result does not fit. -/
def checked? (op : Operator) (a b : Int64) : Option Int64 :=
  Number.ofInt? (op.ofInts a.toInt b.toInt)

end Operator

namespace Comparator

/-- Whether the comparison holds of two values. -/
def holds : Comparator → Int64 → Int64 → Bool
  | .notEqual, a, b => a != b
  | .equal, a, b => a == b
  | .less, a, b => a < b
  | .greater, a, b => b < a
  | .lessEqual, a, b => a ≤ b
  | .greaterEqual, a, b => b ≤ a

/-- How the comparison is written. -/
def symbol : Comparator → String
  | .notEqual => "!="
  | .equal => "=="
  | .less => "<"
  | .greater => ">"
  | .lessEqual => "<="
  | .greaterEqual => ">="

end Comparator

end CoreLang
