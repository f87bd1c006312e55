import Std.Data.ExtTreeMap

/-!
# Symbols

The variables of a program are numbered in the order of their declaration. A
`Symbol` is such a number. A `SymbolTable` has the names in order and an index
from the names back to the symbols. The two are filled together, one name at a
time, and every table carries the proof that they are inverse to each other; so
no name is declared twice, and the names alone make out the table.
-/

namespace CoreLang

/-- The number of a variable. -/
structure Symbol where
  index : Nat
deriving Repr, DecidableEq, Inhabited

/-- How many symbols there are: a number is stored in 32 bits. -/
def Symbol.limit : Nat := UInt32.size

/-- Declared names in order of declaration, with an index from names to symbols. -/
structure SymbolTable where
  names : List String
  byName : Std.ExtTreeMap String Symbol
  /-- The index leads to the place where the name stands. -/
  inverse : ∀ {name : String} {s : Symbol}, byName[name]? = some s ↔ names[s.index]? = some name

namespace SymbolTable

variable {t t' : SymbolTable} {name : String} {s : Symbol}

def empty : SymbolTable :=
  { names := [], byName := ∅, inverse := by simp }

instance : Inhabited SymbolTable := ⟨empty⟩

def size (t : SymbolTable) : Nat := t.names.length

theorem contains_byName_iff : t.byName.contains name = true ↔ name ∈ t.names := by
  rw [Std.ExtTreeMap.contains_eq_isSome_getElem?, Option.isSome_iff_exists, List.mem_iff_getElem?]
  constructor
  · rintro ⟨s, found⟩
    exact ⟨s.index, t.inverse.1 found⟩
  · rintro ⟨i, here⟩
    exact ⟨⟨i⟩, t.inverse.2 here⟩

/-- A fresh name put behind the others keeps names and index inverse to each other. -/
theorem inverse_concat (t : SymbolTable) {other : String} (fresh : name ∉ t.names) :
    (t.byName.insert name ⟨t.names.length⟩)[other]? = some s ↔
      (t.names ++ [name])[s.index]? = some other := by
  rw [Std.ExtTreeMap.getElem?_insert, List.getElem?_append]
  by_cases same : name = other
  · subst same
    rw [if_pos Std.ReflCmp.compare_self, Option.some.injEq]
    by_cases earlier : s.index < t.names.length
    · have apart : t.names[s.index]? ≠ some name := fun here => fresh (List.mem_of_getElem? here)
      rw [if_pos earlier, iff_false_right apart]
      rintro rfl
      exact Nat.lt_irrefl _ earlier
    · rw [if_neg earlier, List.getElem?_singleton]
      constructor
      · rintro rfl
        simp
      · intro here
        cases s
        simp only [ite_eq_left_iff, reduceCtorEq, imp_false, Decidable.not_not] at here
        simp only at earlier
        rw [Symbol.mk.injEq]
        omega
  · have other : compare name other ≠ .eq := fun equal => same (Std.LawfulEqCmp.eq_of_compare equal)
    rw [if_neg other, t.inverse]
    by_cases earlier : s.index < t.names.length
    · rw [if_pos earlier]
    · rw [if_neg earlier, List.getElem?_singleton, List.getElem?_eq_none (Nat.le_of_not_lt earlier)]
      simp [same]

/-- Adds a name and gives its symbol; `none` if the index has the name, or if there
is no symbol left. -/
def declare? (t : SymbolTable) (name : String) : Option (Symbol × SymbolTable) :=
  if taken : t.byName.contains name then none
  else if t.names.length < Symbol.limit then
    some (⟨t.names.length⟩,
      { names := t.names ++ [name]
        byName := t.byName.insert name ⟨t.names.length⟩
        inverse := t.inverse_concat (mt contains_byName_iff.2 taken) })
  else none

/-- The symbol of a declared name. -/
def resolve? (t : SymbolTable) (name : String) : Option Symbol :=
  t.byName[name]?

/-- The name of a symbol; `none` if the table has no such symbol. -/
def name? (t : SymbolTable) (s : Symbol) : Option String :=
  t.names[s.index]?

/-- Names and symbols answer to each other. -/
theorem resolve?_eq_some_iff : t.resolve? name = some s ↔ t.name? s = some name :=
  t.inverse

theorem resolve?_eq_none_iff : t.resolve? name = none ↔ name ∉ t.names := by
  rw [← contains_byName_iff, Std.ExtTreeMap.contains_eq_isSome_getElem?, resolve?,
    Option.not_isSome_iff_eq_none]

theorem declare?_of_mem (declared : name ∈ t.names) : t.declare? name = none := by
  rw [declare?, dif_pos (contains_byName_iff.2 declared)]

theorem exists_declare? (fresh : name ∉ t.names) (room : t.names.length < Symbol.limit) :
    ∃ t', t.declare? name = some (⟨t.names.length⟩, t') ∧ t'.names = t.names ++ [name] := by
  rw [declare?, dif_neg (mt contains_byName_iff.1 fresh), if_pos room]
  exact ⟨_, rfl, rfl⟩

theorem of_declare?_eq_some (added : t.declare? name = some (s, t')) :
    name ∉ t.names ∧ t.names.length < Symbol.limit ∧ s = ⟨t.names.length⟩ ∧
      t'.names = t.names ++ [name] := by
  by_cases declared : name ∈ t.names
  · rw [declare?_of_mem declared] at added
    cases added
  · by_cases room : t.names.length < Symbol.limit
    · obtain ⟨table, found, names⟩ := exists_declare? declared room
      cases found.symm.trans added
      exact ⟨declared, room, rfl, names⟩
    · rw [declare?, dif_neg (mt contains_byName_iff.1 declared), if_neg room] at added
      cases added

/-- No name is declared twice. -/
theorem distinct (t : SymbolTable) : t.names.Nodup := by
  refine List.pairwise_iff_getElem.2 fun i j hi hj less same => ?_
  have first : t.byName[t.names[i]]? = some ⟨i⟩ := t.inverse.2 (List.getElem?_eq_getElem hi)
  have second : t.byName[t.names[j]]? = some ⟨j⟩ := t.inverse.2 (List.getElem?_eq_getElem hj)
  rw [same, second] at first
  cases first
  exact Nat.lt_irrefl _ less

/-- The names make out the table. -/
@[ext] theorem ext_names (same : t.names = t'.names) : t = t' := by
  have index : t.byName = t'.byName := by
    refine Std.ExtTreeMap.ext_getElem? fun name => Option.ext fun s => ?_
    rw [t.inverse, t'.inverse, same]
  cases t
  cases t'
  cases same
  cases index
  rfl

instance : DecidableEq SymbolTable := fun _ _ =>
  decidable_of_iff _ ⟨ext_names, congrArg names⟩

instance : Repr SymbolTable := ⟨fun t => reprPrec t.names⟩

/-- Declares names in order; a repeated name is passed over. -/
def ofNames (names : List String) : SymbolTable :=
  names.foldl (fun t name => ((t.declare? name).map (·.2)).getD t) empty

end SymbolTable

end CoreLang
