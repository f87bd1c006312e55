import CoreLang.Symbol

/-!
# Environments

The variables of a running program: one slot for every symbol of a table, empty
until something is stored there. Names and symbols reach the same slots.
-/

namespace CoreLang

structure Environment where
  symbols : SymbolTable
  values : Array (Option Int64)
  size_values : values.size = symbols.size
deriving Repr, DecidableEq

namespace Environment

/-- No variable has a value yet. -/
def ofSymbols (symbols : SymbolTable) : Environment :=
  { symbols := symbols
    values := Array.replicate symbols.size none
    size_values := Array.size_replicate }

instance : Inhabited Environment := ⟨ofSymbols .empty⟩

/-- The value of a variable, if it has one. -/
def get? (env : Environment) (s : Symbol) : Option Int64 :=
  env.values[s.index]?.join

/-- Stores a value; `none` if there is no such variable. -/
def set? (env : Environment) (s : Symbol) (v : Int64) : Option Environment :=
  if s.index < env.values.size then
    some { env with
      values := env.values.setIfInBounds s.index (some v)
      size_values := by rw [Array.size_setIfInBounds, env.size_values] }
  else none

/-- Storing changes the one variable and no other. -/
theorem get?_of_set?_eq_some {env env' : Environment} {s r : Symbol} {v : Int64}
    (h : env.set? s v = some env') : env'.get? r = if r = s then some v else env.get? r := by
  unfold set? at h
  split at h
  · next bound =>
    obtain rfl := Option.some.inj h
    simp only [get?, Array.getElem?_setIfInBounds]
    by_cases same : r = s
    · subst same
      simp [bound]
    · have apart : s.index ≠ r.index := fun e => same (by cases r; cases s; simp_all)
      simp [same, apart]
  · cases h

theorem symbols_of_set? {env env' : Environment} {symbol : Symbol} {v : Int64}
    (stored : env.set? symbol v = some env') : env'.symbols = env.symbols := by
  unfold set? at stored
  split at stored
  · cases stored
    rfl
  · cases stored

/-- The value of the variable with this name. -/
def getByName? (env : Environment) (name : String) : Option Int64 :=
  (env.symbols.resolve? name).bind env.get?

theorem get?_eq_getByName? {env : Environment} {symbol : Symbol} {name : String}
    (named : env.symbols.name? symbol = some name) : env.get? symbol = env.getByName? name := by
  simp [getByName?, SymbolTable.resolve?_eq_some_iff.2 named]

/-- Stores a value in the variable with this name. -/
def setByName? (env : Environment) (name : String) (v : Int64) : Option Environment :=
  (env.symbols.resolve? name).bind fun s => env.set? s v

theorem set?_eq_setByName? {env : Environment} {symbol : Symbol} {name : String}
    (named : env.symbols.name? symbol = some name) (v : Int64) :
    env.set? symbol v = env.setByName? name v := by
  simp [setByName?, SymbolTable.resolve?_eq_some_iff.2 named]

/-- Every name with its value, in order of declaration. -/
def bindings (env : Environment) : List (String × Option Int64) :=
  env.symbols.names.zip env.values.toList

end Environment

end CoreLang
