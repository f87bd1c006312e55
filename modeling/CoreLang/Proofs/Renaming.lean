import CoreLang.Proofs.NameTables
import CoreLang.Proofs.RenamedRuns
import CoreLang.Proofs.RoundTrip
import CoreLang.Proofs.Safety

/-!
# Names do not matter

A parsed program with other names for its variables is the same program. Its runs go the
same way, and where a name is told, in the output or in a fault, it is the new name of the
same variable. Its canonical text is that of the renamed derivation, and is parsed into the
same nodes.
-/

namespace CoreLang

/-! ### Tables of given names -/

namespace SymbolTable

variable {t t' : SymbolTable} {names : List String} {symbol : Symbol}

theorem eraseDups_of_nodup (distinct : names.Nodup) : names.eraseDups = names := by
  induction names using List.reverseRecOn with
  | nil => rfl
  | append_singleton names name ih =>
    obtain ⟨front, -, apart⟩ := List.nodup_append.1 distinct
    have fresh : name ∉ names := fun again =>
      apart name again name (List.mem_singleton_self name) rfl
    rw [eraseDups_concat, if_neg fresh, ih front]

/-- Distinct names are all declared, in order. -/
theorem names_ofNames (distinct : names.Nodup) (few : names.length ≤ Symbol.limit) :
    (ofNames names).names = names :=
  (names_ofNames_eq few).trans (eraseDups_of_nodup distinct)

theorem index_spell (known : symbol.index < t.size) : t.index (t.spell symbol) = symbol := by
  have named := name?_eq_spell known
  have declared : t.spell symbol ∈ t.names := List.mem_of_getElem? named
  exact Option.some.inj
    ((resolve?_eq_some_index declared).symm.trans (resolve?_eq_some_iff.2 named))

theorem index_lt {name : String} (declared : name ∈ t.names) : (t.index name).index < t.size :=
  List.idxOf_lt_length_of_mem declared

/-- What the variable `name` of the table `t` is called in the table `t'`. -/
def translate (t t' : SymbolTable) (name : String) : String :=
  t'.spell (t.index name)

theorem translate_spell (known : symbol.index < t.size) :
    t.translate t' (t.spell symbol) = t'.spell symbol := by
  rw [translate, index_spell known]

theorem map_translate (same : t'.size = t.size) : t.names.map (t.translate t') = t'.names := by
  apply List.ext_getElem
  · rw [List.length_map]
    exact same.symm
  · intro i bound bound'
    have within : i < t.names.length := by simpa using bound
    have here : t.spell ⟨i⟩ = t.names[i] := by
      simp [spell, name?, within]
    have there : t'.spell ⟨i⟩ = t'.names[i] := by
      simp [spell, name?, bound']
    rw [List.getElem_map, ← here, translate_spell within, there]

end SymbolTable

/-! ### Runs -/

/-- The fault with another name for its variable. -/
def RuntimeError.rename (f : String → String) : RuntimeError → RuntimeError
  | .uninitializedVariable name line => .uninitializedVariable (f name) line
  | .unknownVariable name line => .unknownVariable (f name) line
  | e => e

/-- The second run ended as the first one, with the names of the table `t'` for those of
the table `t`: the variables have the same values in the same order, and what was written
shows the same variables with the same values. -/
structure RunsRenamed (t t' : SymbolTable) (sink : Sink)
    (run run' : Except (Stop RuntimeError) Unit × Machine) : Prop where
  ending : run'.1 = run.1.mapError (Stop.mapFault (RuntimeError.rename (t.translate t')))
  counters : run'.2.counters = run.2.counters
  values : run'.2.env.values = run.2.env.values
  shown : ∃ shown : List (Symbol × Int64), (∀ e ∈ shown, e.1.index < t.size) ∧
    run.2.sink = sink.plus (t.report shown) ∧ run'.2.sink = sink.plus (t'.report shown)

namespace Renaming

variable {r : Renaming} {sink : Sink}

theorem twins_start (r : Renaming) (input : DataStream) (sink : Sink) :
    r.Twins sink (.start r.before input sink) (.start r.after input sink) where
  symbols := rfl
  symbols' := rfl
  values := congrArg (Array.replicate · none) r.size_eq
  input := rfl
  counters := rfl
  shown := ⟨[], nofun, by simp [Sink.plus, SymbolTable.report, Machine.start],
    by simp [Sink.plus, SymbolTable.report, Machine.start]⟩

theorem Stops.eq_mapFault {stop stop' : Stop RuntimeError} (h : r.Stops stop stop')
    (proper : stop = .unfinished ∨ ∃ e, stop = .fault e ∧ ¬ e.Internal) :
    stop' = stop.mapFault (RuntimeError.rename (r.before.translate r.after)) := by
  cases h with
  | named known line =>
    simp only [Stop.mapFault, RuntimeError.rename, SymbolTable.translate_spell known]
  | same nameless =>
    obtain rfl | ⟨e, rfl, proper⟩ := proper
    · rfl
    · cases e with
      | uninitializedVariable name line => exact nameless.elim
      | unknownVariable name line | tree error => exact absurd trivial proper
      | inputExhausted line | inputNotInteger token line | overflow line | io reason line => rfl

end Renaming

namespace Parsed

variable {source : String} {capacity : Nat} {parsed : Parsed}

theorem execute_renamed (accepted : parse source capacity = .ok parsed) {table : SymbolTable}
    (same : table.size = parsed.symbols.size) (steps : Nat) (input : DataStream) {sink : Sink}
    (unlimited : sink.room = none) :
    RunsRenamed parsed.symbols table sink
      (parsed.execute steps (.start parsed.symbols input sink))
      (execute { parsed with symbols := table } steps (.start table input sink)) := by
  let r : Renaming := ⟨parsed.symbols, table, same⟩
  have ends := r.run_parallel unlimited parsed.tree steps _ _ (r.twins_start input sink)
  unfold execute
  generalize ran : parsed.tree.run steps (.start r.before input sink) = e at ends
  generalize ran' : parsed.tree.run steps (.start r.after input sink) = e' at ends
  cases ends with
  | ok _ twins => exact ⟨rfl, twins.counters, twins.values, twins.shown⟩
  | error stops twins =>
    refine ⟨?_, twins.counters, twins.values, twins.shown⟩
    exact congrArg Except.error (stops.eq_mapFault (run_error accepted rfl ran))

end Parsed

/-! ### Texts -/

namespace Terminal

/-- The token with another name, if it is one. -/
def rename (g : String → String) : Terminal → Terminal
  | .identifier name => .identifier (g name)
  | t => t

def name? : Terminal → Option String
  | .identifier name => some name
  | _ => none

end Terminal

namespace Derivation

variable {α ι κ : Type} {tag : Tag}

theorem declared_rename (g : ι → κ) (d : Derivation α ι .program) :
    (d.rename g).declared = d.declared.map g := by
  cases d with
  | program _ decls stmts => exact vars_map id g decls

theorem used_rename (g : ι → κ) (d : Derivation α ι .program) :
    (d.rename g).used = d.used.map g := by
  cases d with
  | program _ decls stmts => exact vars_map id g stmts

theorem yield_rename (g : String → String) (d : Derivation α String tag) :
    (d.rename g).yield = d.yield.map (Terminal.rename g) := by
  induction d <;>
    simp only [map, yield, Terminal.rename, List.map_append, List.map_cons, List.map_nil, *]

/-- The names among the tokens are the variables, from left to right. -/
theorem filterMap_name?_yield (d : Derivation α String tag) :
    d.yield.filterMap Terminal.name? = d.vars := by
  induction d <;>
    simp only [yield, vars, Terminal.name?, List.filterMap_append, List.filterMap_cons,
      List.filterMap_nil, List.nil_append, List.append_nil, *]

/-- What can be written can be written with other names. -/
theorem written_rename {g : String → String} {d : Derivation α String tag}
    (names : ∀ x ∈ d.vars, IsName (g x)) (written : ∀ t ∈ d.yield, t.Written) :
    ∀ t ∈ (d.rename g).yield, t.Written := by
  rw [yield_rename, List.forall_mem_map]
  intro t member
  cases t with
  | identifier x =>
    apply names
    rw [← d.filterMap_name?_yield]
    exact List.mem_filterMap.2 ⟨_, member, rfl⟩
  | keyword word | mark sign | integer value | eof => exact written _ member

/-- With other names a derivation is in as good order as before. -/
theorem Fitting.translate {d : Derivation Unit String .program} {capacity : Nat}
    (h : d.Fitting capacity) {t t' : SymbolTable} (declared : t.names = d.declared)
    (same : t'.size = t.size) : (d.rename (t.translate t')).Fitting capacity where
  named := by
    constructor
    · rw [declared_rename, ← declared, SymbolTable.map_translate same]
      exact t'.distinct
    · rw [declared_rename, used_rename, List.forall_mem_map]
      exact fun x used => List.mem_map_of_mem (h.named.known x used)
  small := by
    rw [size_map]
    exact h.small
  shallow := by
    rw [nesting_map]
    exact h.shallow

end Derivation

namespace Parsed.Shows

variable {parsed : Parsed} {capacity : Nat} {d : Derivation Unit String .program}
  {p : Program Symbol} {table : SymbolTable}

/-- Any table as large as its own names the symbols of a parsed program. -/
theorem vars_named_in (h : parsed.Shows capacity d p) (named : d.WellNamed)
    (same : table.size = parsed.symbols.size) :
    ∀ v ∈ p.derivation.vars, table.name? v = some (table.spell v) := by
  intro v hv
  have bound := (List.getElem?_eq_some_iff.1 (h.vars_named named v hv)).1
  exact SymbolTable.name?_eq_spell (same.symm ▸ bound)

theorem shape_translate (h : parsed.Shows capacity d p) (table : SymbolTable) :
    (p.rename table.spell).derivation.shape = d.rename (parsed.symbols.translate table) := by
  rw [Program.derivation_rename, Derivation.shape_rename, h.shape_eq, Derivation.rename_rename]
  rfl

theorem index_lt (h : parsed.Shows capacity d p) (named : d.WellNamed)
    (same : table.size = parsed.symbols.size) {x : String} (hx : x ∈ d.vars) :
    (parsed.symbols.index x).index < table.size := by
  rw [same]
  exact SymbolTable.index_lt (h.names_eq ▸ named.mem_declared hx)

/-- The text of a parsed program under other names derives the renamed derivation. -/
theorem derives_translate (h : parsed.Shows capacity d p) (named : d.WellNamed)
    (written : ∀ t ∈ d.yield, t.Written) (same : table.size = parsed.symbols.size)
    (proper : ∀ x ∈ table.names, IsName x) :
    Derives (d.rename (parsed.symbols.translate table)) (p.rename table.spell).render := by
  have renamed : ∀ t ∈ (d.rename (parsed.symbols.translate table)).yield, t.Written := by
    refine Derivation.written_rename (fun x hx => ?_) written
    apply proper
    exact List.mem_of_getElem? (SymbolTable.name?_eq_spell (h.index_lt named same hx))
  have shape := h.shape_translate table
  rw [← shape, Derivation.yield_map] at renamed
  exact shape ▸ CoreLang.derives_render renamed

/-- It is parsed into the same nodes, and the symbols have the other names. -/
theorem exists_parse_renamed (h : parsed.Shows capacity d p) (fitting : d.Fitting capacity)
    (written : ∀ t ∈ d.yield, t.Written) (same : table.size = parsed.symbols.size)
    (proper : ∀ x ∈ table.names, IsName x) :
    ∃ again, parse (p.rename table.spell).render capacity = .ok again ∧
      again.tree.entries.map Entry.node = parsed.tree.entries.map Entry.node ∧
      again.tree.root = parsed.tree.root ∧ again.symbols = table := by
  have derives := h.derives_translate fitting.named written same proper
  obtain ⟨again, q, accepted, shows⟩ := exists_parse derives (fitting.translate h.names_eq same)
    (by rw [Derivation.size_map]; exact h.size_le_limit)
  have symbols : again.symbols = table := by
    apply SymbolTable.ext_names
    rw [shows.names_eq, Derivation.declared_rename, ← h.names_eq, SymbolTable.map_translate same]
  have shapes : q.derivation.shape = p.derivation.shape := by
    rw [shows.shape_eq, h.shape_eq, symbols, Derivation.rename_rename]
    refine Derivation.map_congr fun x hx => ?_
    exact SymbolTable.index_spell (h.index_lt fitting.named same hx)
  obtain ⟨nodes, root⟩ := Tree.nodes_eq_of_stored h.tree_eq shows.tree_eq shapes
  exact ⟨again, accepted, nodes, root, symbols⟩

end Parsed.Shows

/-- A parsed program whose symbols are given other names, any that are distinct, runs the
same way on any data and any sink that takes all: cut off or not, with the same counters and
the same values, and with the new names in place of the old ones in faults and in the output.
If the names can be written, the program is printed with them, and this text is parsed at the
same capacity into the same nodes, with these names for the symbols. -/
theorem renamed_same_program {source : String} {capacity : Nat} {parsed : Parsed}
    (accepted : parse source capacity = .ok parsed) {names : List String}
    (distinct : names.Nodup) (all : names.length = parsed.symbols.size) :
    (∀ steps input sink, sink.room = none →
      RunsRenamed parsed.symbols (.ofNames names) sink
        (parsed.execute steps (.start parsed.symbols input sink))
        (Parsed.execute { parsed with symbols := .ofNames names } steps
          (.start (.ofNames names) input sink))) ∧
    ((∀ x ∈ names, IsName x) →
      ∃ text, parsed.tree.render (.ofNames names) = .ok text ∧
        ∃ again, parse text capacity = .ok again ∧
          again.tree.entries.map Entry.node = parsed.tree.entries.map Entry.node ∧
          again.tree.root = parsed.tree.root ∧ again.symbols.names = names) := by
  obtain ⟨d, p, derives, fitting, shows⟩ := parse_sound accepted
  have few : names.length ≤ Symbol.limit := by
    rw [all, SymbolTable.size, shows.names_eq]
    exact d.length_declared_le.trans shows.size_le_limit
  have declared := SymbolTable.names_ofNames distinct few
  have same : (SymbolTable.ofNames names).size = parsed.symbols.size := by
    rw [SymbolTable.size, declared, all]
  constructor
  · intro steps input sink unlimited
    exact Parsed.execute_renamed accepted same steps input unlimited
  · intro proper
    have printed := Tree.render_of_stored shows.tree_eq (shows.vars_named_in fitting.named same)
    rw [← declared] at proper
    obtain ⟨again, accepted', nodes, root, symbols⟩ :=
      shows.exists_parse_renamed fitting derives.written same proper
    exact ⟨_, printed, again, accepted', nodes, root, by rw [symbols, declared]⟩

theorem renamed_same_program_countdown :
    ∃ parsed, parse "program int N, M; begin read N; while (0<N) loop
write N; N=N-M; end; end" 60
        = .ok parsed ∧
      ["M", "STEP2"].Nodup ∧ ["M", "STEP2"].length = parsed.symbols.size ∧
      (∀ steps input, RunsRenamed parsed.symbols (.ofNames ["M", "STEP2"]) {}
        (parsed.execute steps (.start parsed.symbols input {}))
        (Parsed.execute { parsed with symbols := .ofNames ["M", "STEP2"] } steps
          (.start (.ofNames ["M", "STEP2"]) input {}))) ∧
      ∃ text, parsed.tree.render (.ofNames ["M", "STEP2"]) = .ok text ∧
        ∃ again, parse text 60 = .ok again ∧
          again.tree.entries.map Entry.node = parsed.tree.entries.map Entry.node ∧
          again.tree.root = parsed.tree.root ∧ again.symbols.names = ["M", "STEP2"] := by
  obtain ⟨parsed, accepted, two⟩ := exists_parsed_such
    "program int N, M; begin read N; while (0<N) loop
write N; N=N-M; end; end" 60
    (fun parsed => parsed.symbols.size == 2) (by decide +kernel)
  have distinct : ["M", "STEP2"].Nodup := by decide
  have all : ["M", "STEP2"].length = parsed.symbols.size := (beq_iff_eq.1 two).symm
  have proper : ∀ x ∈ ["M", "STEP2"], IsName x :=
    List.forall_mem_cons.2 ⟨⟨⟨'M', _, rfl, by decide⟩, by decide⟩,
      List.forall_mem_singleton.2 ⟨⟨'S', _, rfl, by decide⟩, by decide⟩⟩
  obtain ⟨runs, texts⟩ := renamed_same_program accepted distinct all
  exact ⟨parsed, accepted, distinct, all, fun steps input => runs steps input {} rfl, texts proper⟩

end CoreLang
