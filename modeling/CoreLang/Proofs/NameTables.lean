import Mathlib.Data.List.Induction
import CoreLang.Environment

/-!
# Name tables as finite maps

A table answers to the calls that filled it: a name gets its symbol when it is declared for
the first time, and every later declaration of it is refused (`SymbolTable.Records`). An
environment over a table answers to the requests that were made of it, by symbol or by name:
each variable has the value that was stored in it last (`Environment.Remembers`). Both are
shown for one call more, and so for any number of calls.
-/

namespace CoreLang

/-! ### Declarations -/

namespace SymbolTable

variable {t : SymbolTable} {names : List String} {name : String} {symbol : Symbol}

theorem name?_eq_none_iff : t.name? symbol = none ↔ ¬ symbol.index < t.size := by
  rw [name?, List.getElem?_eq_none_iff, size, Nat.not_lt]

theorem ofNames_concat (names : List String) (name : String) :
    ofNames (names ++ [name]) =
      (((ofNames names).declare? name).map (·.2)).getD (ofNames names) := by
  rw [ofNames, List.foldl_append]
  rfl

theorem eraseDups_concat (names : List String) (name : String) :
    (names ++ [name]).eraseDups =
      if name ∈ names then names.eraseDups else names.eraseDups ++ [name] := by
  rw [List.eraseDups_append]
  by_cases again : name ∈ names <;> simp [List.removeAll, again, List.eraseDups_cons]

theorem length_eraseDups_le (names : List String) : names.eraseDups.length ≤ names.length := by
  induction names using List.reverseRecOn with
  | nil => simp
  | append_singleton names name ih =>
    rw [eraseDups_concat, List.length_append]
    split
    · exact Nat.le_add_right_of_le ih
    · rw [List.length_append]
      exact Nat.add_le_add_right ih _

/-- One call on the table of earlier calls: the name gets the next symbol, or it is refused
because it was declared before. -/
theorem declare?_ofNames (declared : (ofNames names).names = names.eraseDups)
    (few : names.length < Symbol.limit) (name : String) :
    (name ∈ names ∧ (ofNames names).declare? name = none ∧
      ofNames (names ++ [name]) = ofNames names) ∨
    (name ∉ names ∧
      (ofNames names).declare? name =
        some (⟨names.eraseDups.length⟩, ofNames (names ++ [name])) ∧
      (ofNames (names ++ [name])).names = names.eraseDups ++ [name]) := by
  have known : name ∈ (ofNames names).names ↔ name ∈ names := by
    rw [declared, List.mem_eraseDups]
  by_cases again : name ∈ names
  · have refused := declare?_of_mem (known.2 again)
    exact .inl ⟨again, refused, by rw [ofNames_concat, refused]; rfl⟩
  · have room : (ofNames names).names.length < Symbol.limit := by
      rw [declared]
      exact Nat.lt_of_le_of_lt (length_eraseDups_le names) few
    obtain ⟨t', accepted, more⟩ := exists_declare? (mt known.1 again) room
    rw [declared] at accepted more
    have next : ofNames (names ++ [name]) = t' := by
      rw [ofNames_concat, accepted]
      rfl
    exact .inr ⟨again, next ▸ accepted, next ▸ more⟩

/-- The names of a table are those that were declared, each where it came first. -/
theorem names_ofNames_eq (few : names.length ≤ Symbol.limit) :
    (ofNames names).names = names.eraseDups := by
  induction names using List.reverseRecOn with
  | nil => rfl
  | append_singleton names name ih =>
    have room : names.length < Symbol.limit := by
      rw [List.length_append, List.length_singleton] at few
      omega
    rw [eraseDups_concat]
    have declared := ih (Nat.le_of_lt room)
    rcases declare?_ofNames declared room name with ⟨again, -, same⟩ | ⟨fresh, -, more⟩
    · rw [if_pos again, same, declared]
    · rw [if_neg fresh, more]

/-- Later declarations leave the symbols of a table as they are. -/
theorem name?_ofNames_append {later : List String} (few : (names ++ later).length ≤ Symbol.limit)
    (named : (ofNames names).name? symbol = some name) :
    (ofNames (names ++ later)).name? symbol = some name := by
  have few' : names.length ≤ Symbol.limit := by
    rw [List.length_append] at few
    omega
  rw [name?, names_ofNames_eq few'] at named
  rw [name?, names_ofNames_eq few, List.eraseDups_append]
  obtain ⟨within, -⟩ := List.getElem?_eq_some_iff.1 named
  rwa [List.getElem?_append_left within]

/-- What a table has to show for the calls that filled it. -/
structure Records (calls : List String) (t : SymbolTable) : Prop where
  names_eq : t.names = calls.eraseDups
  /-- A name that is declared for the first time gets a symbol, its position. -/
  first : ∀ before name after, calls = before ++ name :: after → name ∉ before →
    ∃ symbol, (ofNames before).declare? name = some (symbol, ofNames (before ++ [name])) ∧
      symbol.index = before.eraseDups.length ∧ t.name? symbol = some name
  /-- A name that was declared before is refused, and the table stays as it is. -/
  again : ∀ before name after, calls = before ++ name :: after → name ∈ before →
    (ofNames before).declare? name = none ∧ ofNames (before ++ [name]) = ofNames before
  resolves : ∀ name symbol, t.resolve? name = some symbol ↔ t.name? symbol = some name
  /-- The index has each name, with the place that it got. -/
  byName_eq : ∀ name, t.byName[name]? = (calls.eraseDups.idxOf? name).map Symbol.mk

theorem byName_eq_idxOf? (t : SymbolTable) (name : String) :
    t.byName[name]? = (t.names.idxOf? name).map Symbol.mk := by
  cases found : t.names.idxOf? name with
  | none => exact resolve?_eq_none_iff.2 (List.idxOf?_eq_none_iff.1 found)
  | some i =>
    obtain ⟨bound, here, -⟩ := List.idxOf?_eq_some_iff.1 found
    exact t.inverse.2 (List.getElem?_eq_some_iff.2 ⟨bound, here⟩)

theorem records_ofNames {calls : List String} (few : calls.length < Symbol.limit) :
    Records calls (ofNames calls) := by
  have call {before after : List String} {name : String}
      (parted : calls = before ++ name :: after) : before.length < Symbol.limit := by
    rw [parted, List.length_append] at few
    omega
  have names := names_ofNames_eq (Nat.le_of_lt few)
  refine ⟨names, ?_, ?_, fun _ _ => resolve?_eq_some_iff, fun name => ?_⟩
  · intro before name after parted new
    have room := call parted
    rcases declare?_ofNames (names_ofNames_eq (Nat.le_of_lt room)) room name with
      ⟨again, -⟩ | ⟨-, accepted, more⟩
    · exact absurd again new
    · refine ⟨_, accepted, rfl, ?_⟩
      have here : (ofNames (before ++ [name])).name? ⟨before.eraseDups.length⟩ = some name := by
        rw [name?, more, List.getElem?_concat_length]
      rw [List.append_cons] at parted
      rw [parted] at few ⊢
      exact name?_ofNames_append (Nat.le_of_lt few) here
  · intro before name after parted old
    have room := call parted
    rcases declare?_ofNames (names_ofNames_eq (Nat.le_of_lt room)) room name with
      ⟨-, refused, same⟩ | ⟨fresh, -⟩
    · exact ⟨refused, same⟩
    · exact absurd old fresh
  · rw [byName_eq_idxOf?, names]

end SymbolTable

/-! ### Requests to store -/

/-- A request to store a value. -/
inductive StoreRequest where
  | bySymbol (symbol : Symbol) (value : Int64)
  | byName (name : String) (value : Int64)
deriving Repr, DecidableEq, Inhabited

namespace StoreRequest

def value : StoreRequest → Int64
  | .bySymbol _ value | .byName _ value => value

/-- The request is for a variable that was declared. -/
def Declared (t : SymbolTable) : StoreRequest → Prop
  | .bySymbol symbol _ => symbol.index < t.size
  | .byName name _ => name ∈ t.names

/-- The request is for the variable with this symbol. -/
def IsFor (t : SymbolTable) (symbol : Symbol) : StoreRequest → Prop
  | .bySymbol other _ => other = symbol
  | .byName name _ => t.name? symbol = some name

instance (t : SymbolTable) (symbol : Symbol) : DecidablePred (IsFor t symbol)
  | .bySymbol other _ => inferInstanceAs (Decidable (other = symbol))
  | .byName name _ => inferInstanceAs (Decidable (t.name? symbol = some name))

/-- The value that was asked to be stored in a variable last. -/
def lastValue (t : SymbolTable) (symbol : Symbol) (requests : List StoreRequest) : Option Int64 :=
  (requests.filter (IsFor t symbol)).getLast?.map value

theorem lastValue_concat (t : SymbolTable) (symbol : Symbol) (requests : List StoreRequest)
    (request : StoreRequest) :
    lastValue t symbol (requests ++ [request]) =
      if request.IsFor t symbol then some request.value else lastValue t symbol requests := by
  by_cases here : request.IsFor t symbol <;> simp [lastValue, List.filter_append, here]

end StoreRequest

namespace Environment

variable {env env' : Environment} {t : SymbolTable} {symbol : Symbol} {name : String}
  {request : StoreRequest} {requests : List StoreRequest}

def request? (env : Environment) : StoreRequest → Option Environment
  | .bySymbol symbol value => env.set? symbol value
  | .byName name value => env.setByName? name value

/-- The environment after requests, in order. -/
def after (env : Environment) (requests : List StoreRequest) : Environment :=
  requests.foldl (fun env request => (env.request? request).getD env) env

theorem after_concat (env : Environment) (requests : List StoreRequest) (request : StoreRequest) :
    env.after (requests ++ [request]) =
      ((env.after requests).request? request).getD (env.after requests) := by
  rw [after, List.foldl_append]
  rfl

/-- A request for a declared variable stores its value there, however it names the variable;
any other one is refused. -/
theorem request?_cases (env : Environment) (request : StoreRequest) :
    (¬ request.Declared env.symbols ∧ env.request? request = none ∧
      ∀ symbol, symbol.index < env.symbols.size → ¬ request.IsFor env.symbols symbol) ∨
    (request.Declared env.symbols ∧ ∃ target env', target.index < env.symbols.size ∧
      env.set? target request.value = some env' ∧ env.request? request = some env' ∧
      ∀ symbol, request.IsFor env.symbols symbol ↔ symbol = target) := by
  have stores {target : Symbol} (known : target.index < env.symbols.size) (v : Int64) :
      ∃ env', env.set? target v = some env' := by
    have bound : target.index < env.values.size := env.size_values ▸ known
    simp [set?, bound]
  cases request with
  | bySymbol target v =>
    by_cases known : target.index < env.symbols.size
    · obtain ⟨env', stored⟩ := stores known v
      exact .inr ⟨known, target, env', known, stored, stored, fun _ => eq_comm⟩
    · have bound : ¬ target.index < env.values.size := env.size_values ▸ known
      refine .inl ⟨known, by simp [request?, set?, bound], ?_⟩
      rintro symbol within rfl
      exact known within
  | byName name v =>
    cases resolved : env.symbols.resolve? name with
    | none =>
      have undeclared := SymbolTable.resolve?_eq_none_iff.1 resolved
      refine .inl ⟨undeclared, by simp [request?, setByName?, resolved], fun symbol _ named => ?_⟩
      · rw [SymbolTable.resolve?_eq_some_iff.2 named] at resolved
        cases resolved
    | some target =>
      have named := SymbolTable.resolve?_eq_some_iff.1 resolved
      have known : target.index < env.symbols.size := (List.getElem?_eq_some_iff.1 named).1
      obtain ⟨env', stored⟩ := stores known v
      refine .inr ⟨List.mem_of_getElem? named, target, env', known, stored, ?_, fun symbol => ?_⟩
      · rw [request?, ← set?_eq_setByName? named]
        exact stored
      · rw [StoreRequest.IsFor, ← SymbolTable.resolve?_eq_some_iff, resolved, Option.some.injEq,
          eq_comm]

/-- What an environment has to show for the requests that were made of it, over a table. -/
structure Remembers (t : SymbolTable) (requests : List StoreRequest) (env : Environment) :
    Prop where
  symbols_eq : env.symbols = t
  /-- A variable has the value stored last, whether it is asked for by symbol or by name. -/
  values : ∀ symbol name, t.name? symbol = some name →
    env.get? symbol = StoreRequest.lastValue t symbol requests ∧
      env.getByName? name = StoreRequest.lastValue t symbol requests
  foreign : ∀ symbol, t.name? symbol = none → env.get? symbol = none
  unknown : ∀ name, name ∉ t.names → env.getByName? name = none
  accepts : ∀ request, (env.request? request).isSome ↔ request.Declared t
  /-- A request that is refused changes nothing. -/
  refuses : ∀ request, ¬ request.Declared t → env.after [request] = env
  bindings_eq : env.bindings = t.names.map fun name => (name, env.getByName? name)

theorem symbols_of_request? (stored : env.request? request = some env') :
    env'.symbols = env.symbols := by
  cases request with
  | bySymbol symbol v => exact symbols_of_set? stored
  | byName name v =>
    obtain ⟨symbol, -, stored⟩ := Option.bind_eq_some_iff.1 stored
    exact symbols_of_set? stored

theorem symbols_after (env : Environment) (requests : List StoreRequest) :
    (env.after requests).symbols = env.symbols := by
  induction requests using List.reverseRecOn with
  | nil => rfl
  | append_singleton requests request ih =>
    rw [after_concat]
    cases stored : (env.after requests).request? request with
    | none => exact ih
    | some env' => exact (symbols_of_request? stored).trans ih

/-- Every request takes effect on the variable that it is for, and on no other. -/
theorem get?_after (requests : List StoreRequest) (known : symbol.index < t.size) :
    ((ofSymbols t).after requests).get? symbol = StoreRequest.lastValue t symbol requests := by
  induction requests using List.reverseRecOn with
  | nil => simp [after, get?, ofSymbols, StoreRequest.lastValue, known]
  | append_singleton requests request ih =>
    have table : ((ofSymbols t).after requests).symbols = t := symbols_after _ _
    have answer := ((ofSymbols t).after requests).request?_cases request
    rw [table] at answer
    rw [after_concat, StoreRequest.lastValue_concat]
    rcases answer with ⟨-, refused, other⟩ | ⟨-, target, env', -, stored, accepted, same⟩
    · rw [refused, if_neg (other symbol known)]
      exact ih
    · rw [accepted, Option.getD_some, get?_of_set?_eq_some stored, ih]
      simp only [same symbol]

theorem get?_eq_none (foreign : ¬ symbol.index < env.symbols.size) : env.get? symbol = none := by
  rw [← env.size_values] at foreign
  simp [get?, foreign]

theorem bindings_eq_map (env : Environment) :
    env.bindings = env.symbols.names.map fun name => (name, env.getByName? name) := by
  have same : env.symbols.names.length = env.values.toList.length := by
    rw [Array.length_toList, env.size_values, SymbolTable.size]
  refine List.ext_getElem (by simp [bindings, same]) fun i bound bound' => ?_
  have within : i < env.symbols.names.length := by simpa using bound'
  have named : env.symbols.name? ⟨i⟩ = some env.symbols.names[i] := List.getElem?_eq_getElem within
  have slot : i < env.values.size := by
    rw [env.size_values]
    exact within
  rw [List.getElem_map, ← get?_eq_getByName? named]
  simp [bindings, get?, slot]

theorem remembers_after (t : SymbolTable) (requests : List StoreRequest) :
    Remembers t requests ((ofSymbols t).after requests) := by
  have table : ((ofSymbols t).after requests).symbols = t := symbols_after _ _
  have answers := ((ofSymbols t).after requests).request?_cases
  rw [table] at answers
  refine ⟨table, fun symbol name named => ?_, fun symbol unnamed => ?_, fun name undeclared => ?_,
    fun request => ?_, fun request undeclared => ?_, ?_⟩
  · have known : symbol.index < t.size := (List.getElem?_eq_some_iff.1 named).1
    have value := get?_after requests known
    exact ⟨value, by rw [← get?_eq_getByName? (table.symm ▸ named), value]⟩
  · exact get?_eq_none (by rw [table]; exact SymbolTable.name?_eq_none_iff.1 unnamed)
  · rw [getByName?, table, SymbolTable.resolve?_eq_none_iff.2 undeclared]
    rfl
  · rcases answers request with ⟨undeclared, refused, -⟩ | ⟨declared, _, _, -, -, accepted, -⟩
    · simp [refused, undeclared]
    · simp [accepted, declared]
  · rcases answers request with ⟨-, refused, -⟩ | ⟨declared, -⟩
    · exact congrArg (Option.getD · _) refused
    · exact absurd declared undeclared
  · have shown := bindings_eq_map ((ofSymbols t).after requests)
    rwa [table] at shown

end Environment

/-- A table that was filled by fewer calls than there are symbols is the map that they tell,
and an environment over it is the map that is told by the requests made of it: each variable
has the value that was stored in it last, by whichever way. -/
theorem tables_remember_calls {calls : List String} (few : calls.length < Symbol.limit) :
    SymbolTable.Records calls (.ofNames calls) ∧
      ∀ requests : List StoreRequest, Environment.Remembers (.ofNames calls) requests
        ((Environment.ofSymbols (.ofNames calls)).after requests) :=
  ⟨SymbolTable.records_ofNames few, fun requests => Environment.remembers_after _ requests⟩

/-- A name declared twice, a symbol and a name of no variable, and one variable stored to in
both ways. -/
theorem tables_remember_calls_foreign :
    let calls := ["B", "A", "B"]
    let requests : List StoreRequest :=
      [.byName "A" 1, .bySymbol ⟨2⟩ 5, .bySymbol ⟨1⟩ (-2), .byName "C" 3]
    let env := (Environment.ofSymbols (.ofNames calls)).after requests
    calls.length < Symbol.limit ∧ (SymbolTable.ofNames calls).names = ["B", "A"] ∧
      (SymbolTable.ofNames ["B", "A"]).declare? "B" = none ∧
      env.get? ⟨1⟩ = some (-2) ∧ env.getByName? "A" = some (-2) ∧ env.get? ⟨2⟩ = none ∧
      env.bindings = [("B", none), ("A", some (-2))] := by
  intro calls requests env
  have few : calls.length < Symbol.limit := by decide
  obtain ⟨records, remembers⟩ := tables_remember_calls few
  have names : (SymbolTable.ofNames calls).names = ["B", "A"] := records.names_eq
  have answers := remembers requests
  have again := records.again ["B", "A"] "B" [] rfl (by decide)
  have unset := answers.values ⟨0⟩ "B" (by rw [SymbolTable.name?, names]; rfl)
  have stored := answers.values ⟨1⟩ "A" (by rw [SymbolTable.name?, names]; rfl)
  have foreign := answers.foreign ⟨2⟩ (by rw [SymbolTable.name?, names]; rfl)
  refine ⟨few, names, again.1, stored.1, stored.2, foreign, ?_⟩
  rw [answers.bindings_eq, names, List.map_cons, List.map_singleton, unset.2, stored.2]
  rfl

end CoreLang
