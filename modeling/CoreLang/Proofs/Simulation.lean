import CoreLang.Proofs.BigStep
import CoreLang.Proofs.Retrieval
import CoreLang.Proofs.RunInduction

/-!
# Running a tree and the meaning of what it holds

A machine is seen as a `State` through the names of its variables (`Machine.view`). A
computation on the tree simulates its meaning if, whenever it comes to an end, it ends
as the meaning says and in a state that is seen alike (`Simulates`). This holds of the
expressions, the conditions and the simple statements that a tree holds.

A computation is bounded by steps. A condition `P` on the bound goes with every
simulation: where `P` holds the computation does come to an end, and where it does not,
running out of steps is the only other thing that can happen.
-/

namespace CoreLang

/-! ### Variables by symbol and by name -/

namespace Environment

variable {env env' : Environment} {symbol : Symbol} {name : String} {v : Int64}

/-- A variable that has a name can be stored to, and only its value changes. -/
theorem exists_set? (env : Environment) (v : Int64)
    (named : env.symbols.name? symbol = some name) :
    ∃ env', env.set? symbol v = some env' ∧ env'.symbols = env.symbols ∧
      ∀ x, env'.getByName? x = if x = name then some v else env.getByName? x := by
  have bound : symbol.index < env.values.size := by
    obtain ⟨within, _⟩ := List.getElem?_eq_some_iff.1 named
    rw [env.size_values]
    exact within
  obtain ⟨env', stored⟩ : ∃ env', env.set? symbol v = some env' := by simp [set?, bound]
  have symbols : env'.symbols = env.symbols := by
    simp only [set?, bound, if_true, Option.some.injEq] at stored
    rw [← stored]
  refine ⟨env', stored, symbols, fun x => ?_⟩
  unfold getByName?
  rw [symbols]
  cases resolved : env.symbols.resolve? x with
  | none =>
    have other : x ≠ name := by
      rintro rfl
      rw [SymbolTable.resolve?_eq_some_iff.2 named] at resolved
      cases resolved
    simp [other]
  | some r =>
    have same : r = symbol ↔ x = name := by
      constructor
      · rintro rfl
        exact Option.some.inj ((SymbolTable.resolve?_eq_some_iff.1 resolved).symm.trans named)
      · rintro rfl
        exact Option.some.inj (resolved.symm.trans (SymbolTable.resolve?_eq_some_iff.2 named))
    simp [get?_of_set?_eq_some stored, same]

end Environment

/-! ### Machines as states -/

/-- What a program can see of a machine. -/
def Machine.view (m : Machine) : State :=
  { vars := m.env.getByName?, input := m.input, sink := m.sink, counters := m.counters }

/-- The computation ran out of steps. -/
def Unfinished {α : Type} (r : EStateM.Result (Stop RuntimeError) Machine α) : Prop :=
  ∃ m, r = .error .unfinished m

/-- The computation came to an end as `out` says, with the variables of the table. -/
def EndsAs {α : Type} (table : SymbolTable) (r : EStateM.Result (Stop RuntimeError) Machine α)
    (out : Outcome α) : Prop :=
  (∃ a m, m.env.symbols = table ∧ r = .ok a m ∧ out = .ok a m.view) ∨
  (∃ e m, m.env.symbols = table ∧ r = .error (.fault e) m ∧ out = .error e m.view)

/-- The computation ends as the meaning says, wherever `P` holds or it ends at all. -/
def Simulates {α : Type} (table : SymbolTable) (P : Prop) (x : RunM α)
    (y : Effect α) : Prop :=
  ∀ m, m.env.symbols = table → P ∨ ¬ Unfinished (x m) → EndsAs table (x m) (y m.view)

section Simulates

variable {α β : Type} {table : SymbolTable} {P Q : Prop} {x : RunM α} {f : α → RunM β}
  {y : Effect α} {g : α → Effect β} {m : Machine}

theorem Unfinished.bind (h : Unfinished (x m)) : Unfinished ((x >>= f) m) := by
  obtain ⟨m', h⟩ := h
  exact ⟨m', by simp only [Bind.bind, EStateM.bind, h]⟩

/-- What a computation comes to that goes on behind an ended one. -/
theorem EndsAs.bind {out : Outcome α} (f : α → RunM β) (h : EndsAs table (x m) out) :
    (∃ a m', m'.env.symbols = table ∧ (x >>= f) m = f a m' ∧ out = .ok a m'.view) ∨
    (∃ e m', m'.env.symbols = table ∧ (x >>= f) m = .error (.fault e) m' ∧
      out = .error e m'.view) := by
  rcases h with ⟨a, m', symbols, h, rfl⟩ | ⟨e, m', symbols, h, rfl⟩
  · exact .inl ⟨a, m', symbols, by simp only [Bind.bind, EStateM.bind, h], rfl⟩
  · exact .inr ⟨e, m', symbols, by simp only [Bind.bind, EStateM.bind, h], rfl⟩

namespace Simulates

theorem mono (h : Simulates table P x y) (weaker : Q → P) : Simulates table Q x y :=
  fun m symbols ends => h m symbols (ends.imp_left weaker)

theorem pure (a : α) : Simulates table P (Pure.pure a) (Pure.pure a) :=
  fun m symbols _ => .inl ⟨a, m, symbols, rfl, rfl⟩

/-- How a computation goes on that begins with one that is simulated. -/
theorem split (first : Simulates table P x y) (symbols : m.env.symbols = table)
    (ends : P ∨ ¬ Unfinished ((x >>= f) m)) :
    (∃ a m', m'.env.symbols = table ∧ (x >>= f) m = f a m' ∧ y m.view = .ok a m'.view) ∨
    (∃ e m', m'.env.symbols = table ∧ (x >>= f) m = .error (.fault e) m' ∧
      y m.view = .error e m'.view) :=
  (first m symbols (ends.imp_right fun going stuck => going stuck.bind)).bind f

theorem bind (first : Simulates table P x y) (next : ∀ a, Simulates table P (f a) (g a)) :
    Simulates table P (x >>= f) (y >>= g) := by
  intro m symbols ends
  rcases first.split symbols ends with ⟨a, m', symbols', h, seen⟩ | ⟨e, m', symbols', h, seen⟩
  · rw [h] at ends ⊢
    have meaning : (y >>= g) m.view = g a m'.view := by
      simp only [Bind.bind, EStateM.bind, seen]
    rw [meaning]
    exact next a m' symbols' ends
  · refine .inr ⟨e, m', symbols', h, ?_⟩
    simp only [Bind.bind, EStateM.bind, seen]

theorem count (f : Counters → Counters) :
    Simulates table P (RunM.count f) (modify (·.count f)) :=
  fun m symbols _ => .inl ⟨(), { m with counters := f m.counters }, symbols, rfl, rfl⟩

theorem unfinished (short : ¬ P) :
    Simulates table P (RunM.ofExcept (.error .unfinished)) y :=
  fun m _ ends => ends.elim (fun h => absurd h short) fun h => absurd ⟨m, rfl⟩ h

end Simulates

/-! ### Values

The same for what is found without a change of state. -/

/-- The value is found as the meaning says, wherever `P` holds or one is found at all. -/
def Evaluates (P : Prop) (found : Except (Stop RuntimeError) α) (value : Except RuntimeError α) :
    Prop :=
  P ∨ found ≠ .error .unfinished → found = value.mapError .fault

namespace Evaluates

variable {found : Except (Stop RuntimeError) α} {value : Except RuntimeError α}

theorem mono (h : Evaluates P found value) (weaker : Q → P) : Evaluates Q found value :=
  fun ends => h (ends.imp_left weaker)

theorem ok (a : α) : Evaluates P (.ok a) (.ok a) :=
  fun _ => rfl

theorem unfinished (short : ¬ P) : Evaluates P (.error .unfinished) value :=
  fun ends => ends.elim (fun h => absurd h short) fun h => absurd rfl h

theorem bind {next : α → Except (Stop RuntimeError) β} {value' : α → Except RuntimeError β}
    (first : Evaluates P found value) (then' : ∀ a, Evaluates P (next a) (value' a)) :
    Evaluates P (found >>= next) (value >>= value') := by
  intro ends
  have h := first (ends.imp_right fun going stuck => going (by rw [stuck]; rfl))
  cases value with
  | error e => rw [h]; rfl
  | ok a =>
    obtain rfl : found = .ok a := h
    exact then' a ends

end Evaluates

theorem RunM.ofExcept_ok_bind (a : α) (f : α → RunM β) : (RunM.ofExcept (.ok a) >>= f) = f a :=
  rfl

/-- A value that depends on the variables alone. -/
theorem Simulates.look {find : Environment → Except (Stop RuntimeError) α}
    {value : (String → Option Int64) → Except RuntimeError α}
    (same : ∀ env, env.symbols = table → Evaluates P (find env) (value env.getByName?)) :
    Simulates table P (RunM.environment >>= fun env => RunM.ofExcept (find env))
      (CoreLang.look value) := by
  intro m symbols ends
  have here : (RunM.environment >>= fun env => RunM.ofExcept (find env)) m =
      RunM.ofExcept (find m.env) m := rfl
  rw [here] at ends ⊢
  have h := same m.env symbols (ends.imp_right fun going stuck => going ⟨m, by
    simp [RunM.ofExcept, stuck]⟩)
  rw [h]
  cases told : value m.env.getByName? with
  | ok a => exact .inl ⟨a, m, symbols, rfl, by simp [CoreLang.look, Machine.view, told]⟩
  | error e => exact .inr ⟨e, m, symbols, rfl, by simp [CoreLang.look, Machine.view, told]⟩

/-- A computation that goes on with a value known beforehand. -/
theorem Simulates.known {find : Environment → Except (Stop RuntimeError) α} {a : α} {z : Effect β}
    (same : ∀ env, env.symbols = table → Evaluates P (find env) (.ok a))
    (next : Simulates table P (f a) z) :
    Simulates table P (RunM.environment >>= fun env => RunM.ofExcept (find env) >>= f) z := by
  intro m symbols ends
  have here : (RunM.environment >>= fun env => RunM.ofExcept (find env) >>= f) m =
      (RunM.ofExcept (find m.env) >>= f) m := rfl
  rw [here] at ends ⊢
  have h : find m.env = .ok a := same m.env symbols (ends.imp_right fun going stuck =>
    going ⟨m, by rw [stuck]; rfl⟩)
  rw [h] at ends ⊢
  exact next m symbols ends

end Simulates

namespace Tree

variable {t : Tree} {table : SymbolTable} {env : Environment} {id : NodeId} {steps : Nat}

theorem At.load_eq {node : Node} {line : Nat} (h : t.At id node line) : t.load id = .ok node := by
  have found : t.entries[id.index]? = some ⟨node, line⟩ := h
  rw [load, get, node?, found]
  rfl

theorem At.symbolAt_eq {symbol : Symbol} {line : Nat} (h : t.At id (.ident symbol) line) :
    t.symbolAt id = .ok symbol := by
  rw [symbolAt, h.load_eq]
  rfl

theorem nameOf_eq {symbol : Symbol} {name : String} (named : table.name? symbol = some name) :
    nameOf table symbol = .ok name := by
  rw [nameOf, named]

/-! ### Expressions -/

theorem At.combine_evaluates {P : Prop} {node : Node} {line : Nat} (here : t.At id node line)
    (op : Operator) (a b : Int64) : Evaluates P (t.combine op a b id) (op.apply a b line) := by
  intro _
  rw [combine, here.line_eq]

theorem variableAt_evaluates {P : Prop} {x : Ident String}
    (held : t.Holds env.symbols.name? x.derivation id) :
    Evaluates P (t.variableAt env id) ((Operand.ident x).value env.getByName?) := by
  intro _
  obtain ⟨symbol, here, named⟩ := held
  simp only [variableAt, here.symbolAt_eq, ok_bind, Operand.value, env.get?_eq_getByName? named]
  cases env.getByName? x.var with
  | some v => rfl
  | none =>
    simp only [nameOf_eq named, ok_bind, here.line_eq]
    rfl

mutual

theorem evalExpr_evaluates : {steps : Nat} → {id : NodeId} → (e : Expr String) →
    t.Holds env.symbols.name? e.derivation id →
    Evaluates (e.derivation.size ≤ steps) (t.evalExpr env steps id) (e.value env.getByName?)
  | 0, _, e, _ => .unfinished (Nat.not_le.2 e.derivation.one_le_size)
  | steps + 1, _, .term u, held => by
    obtain ⟨i, here, left⟩ := held
    simp only [evalExpr_succ, here.load_eq, ok_bind, Expr.value]
    exact (evalTerm_evaluates u left).mono (by simp [Expr.derivation])
  | steps + 1, _, .add u rest, held => by
    obtain ⟨i, j, here, left, right⟩ := held
    simp only [evalExpr_succ, here.load_eq, ok_bind, Expr.value]
    exact ((evalTerm_evaluates u left).mono (by simp [Expr.derivation]; omega)).bind fun a =>
      ((evalExpr_evaluates rest right).mono (by simp [Expr.derivation]; omega)).bind fun b =>
        here.combine_evaluates .add a b
  | steps + 1, _, .sub u rest, held => by
    obtain ⟨i, j, here, left, right⟩ := held
    simp only [evalExpr_succ, here.load_eq, ok_bind, Expr.value]
    exact ((evalTerm_evaluates u left).mono (by simp [Expr.derivation]; omega)).bind fun a =>
      ((evalExpr_evaluates rest right).mono (by simp [Expr.derivation]; omega)).bind fun b =>
        here.combine_evaluates .sub a b

theorem evalTerm_evaluates : {steps : Nat} → {id : NodeId} → (u : Term String) →
    t.Holds env.symbols.name? u.derivation id →
    Evaluates (u.derivation.size ≤ steps) (t.evalTerm env steps id) (u.value env.getByName?)
  | 0, _, u, _ => .unfinished (Nat.not_le.2 u.derivation.one_le_size)
  | steps + 1, _, .operand o, held => by
    obtain ⟨i, here, left⟩ := held
    simp only [evalTerm_succ, here.load_eq, ok_bind, Term.value]
    exact (evalOperand_evaluates o left).mono (by simp [Term.derivation])
  | steps + 1, _, .mul o rest, held => by
    obtain ⟨i, j, here, left, right⟩ := held
    simp only [evalTerm_succ, here.load_eq, ok_bind, Term.value]
    exact ((evalOperand_evaluates o left).mono (by simp [Term.derivation]; omega)).bind fun a =>
      ((evalTerm_evaluates rest right).mono (by simp [Term.derivation]; omega)).bind fun b =>
        here.combine_evaluates .mul a b

theorem evalOperand_evaluates : {steps : Nat} → {id : NodeId} → (o : Operand String) →
    t.Holds env.symbols.name? o.derivation id →
    Evaluates (o.derivation.size ≤ steps) (t.evalOperand env steps id) (o.value env.getByName?)
  | 0, _, o, _ => .unfinished (Nat.not_le.2 o.derivation.one_le_size)
  | steps + 1, _, .int line value, held => by
    obtain ⟨i, here, leaf⟩ := held
    have value_at : t.load i = .ok (.int value) := At.load_eq leaf
    simp only [evalOperand_succ, here.load_eq, ok_bind, literalAt, value_at, Operand.value]
    exact .ok value
  | steps + 1, _, .ident x, held => by
    obtain ⟨i, here, leaf⟩ := held
    simp only [evalOperand_succ, here.load_eq, ok_bind]
    exact variableAt_evaluates leaf
  | steps + 1, _, .paren line e, held => by
    obtain ⟨i, here, inner⟩ := held
    simp only [evalOperand_succ, here.load_eq, ok_bind, Operand.value]
    exact (evalExpr_evaluates e inner).mono (by simp [Operand.derivation])

end

/-! ### Conditions -/

theorem evalComparison_simulates (c : Comparison String)
    (held : t.Holds table.name? c.derivation id) :
    Simulates table (c.derivation.size ≤ steps) (t.evalComparison steps id) c.truth := by
  obtain ⟨i, j, k, here, left, op, right⟩ := held
  have compared : t.evalComparison steps id = (do
      RunM.count .comparison
      let env ← RunM.environment
      RunM.ofExcept do
        let a ← t.evalOperand env steps i
        let b ← t.evalOperand env steps k
        return c.op.holds a b) := by
    have operator : t.comparatorAt j = .ok c.op := by
      rw [comparatorAt, At.load_eq op]
      rfl
    simp only [evalComparison, here.load_eq, RunM.ofExcept_ok_bind, operator]
    simp only [← RunM.ofExcept_bind]
    rfl
  rw [compared]
  refine (Simulates.count _).bind fun _ => Simulates.look fun env symbols => ?_
  subst symbols
  exact ((evalOperand_evaluates c.left left).mono (by simp [Comparison.derivation]; omega)).bind
    fun a => ((evalOperand_evaluates c.right right).mono
      (by simp [Comparison.derivation]; omega)).bind fun b => .ok _

theorem evalCond_simulates : {steps : Nat} → {id : NodeId} → (c : Cond String) →
    t.Holds table.name? c.derivation id →
    Simulates table (c.derivation.size ≤ steps) (t.evalCond steps id) c.truth
  | 0, _, c, _ => .unfinished (Nat.not_le.2 c.derivation.one_le_size)
  | steps + 1, _, .compare c, held => by
    obtain ⟨i, here, inner⟩ := held
    simp only [evalCond_succ, here.load_eq, RunM.ofExcept_ok_bind]
    exact (Simulates.count _).bind fun _ =>
      (evalComparison_simulates c inner).mono (by simp [Cond.derivation])
  | steps + 1, _, .not _ c, held => by
    obtain ⟨i, here, inner⟩ := held
    simp only [evalCond_succ, here.load_eq, RunM.ofExcept_ok_bind]
    exact (Simulates.count _).bind fun _ =>
      ((evalCond_simulates c inner).mono (by simp [Cond.derivation])).bind fun a => .pure (!a)
  | steps + 1, _, .and _ l r, held => by
    obtain ⟨i, j, here, left, right⟩ := held
    simp only [evalCond_succ, here.load_eq, RunM.ofExcept_ok_bind]
    exact (Simulates.count _).bind fun _ =>
      ((evalCond_simulates l left).mono (by simp [Cond.derivation]; omega)).bind fun a =>
        ((evalCond_simulates r right).mono (by simp [Cond.derivation]; omega)).bind fun b =>
          .pure (a && b)
  | steps + 1, _, .or _ l r, held => by
    obtain ⟨i, j, here, left, right⟩ := held
    simp only [evalCond_succ, here.load_eq, RunM.ofExcept_ok_bind]
    exact (Simulates.count _).bind fun _ =>
      ((evalCond_simulates l left).mono (by simp [Cond.derivation]; omega)).bind fun a =>
        ((evalCond_simulates r right).mono (by simp [Cond.derivation]; omega)).bind fun b =>
          .pure (a || b)

/-! ### Simple statements -/

theorem store_simulates {P : Prop} {symbol : Symbol} {name : String}
    (named : table.name? symbol = some name) (v : Int64) (spelled : String) (line : Nat) :
    Simulates table P (RunM.store symbol v spelled line) (modify (·.store name v)) := by
  intro m symbols _
  subst symbols
  obtain ⟨env, stored, symbols, values⟩ := m.env.exists_set? v named
  refine .inl ⟨(), { m with env := env }, symbols, by simp [RunM.store, stored], ?_⟩
  have seen : env.getByName? = fun x => if x = name then some v else m.env.getByName? x :=
    funext values
  have view : { m with env := env }.view = m.view.store name v := by
    simp only [Machine.view, State.store, seen]
  rw [view]
  rfl

theorem runAssign_simulates {target : Ident String} {value : Expr String} {line : Nat}
    (held : t.Holds table.name? (.assign line target.derivation value.derivation) id) :
    Simulates table (value.derivation.size ≤ steps) (t.runAssign steps id)
      (assignValue target.var value) := by
  obtain ⟨i, j, here, ⟨symbol, leaf, named⟩, right⟩ := held
  have assigned : t.runAssign steps id = (do
      let v ← (do
        let env ← RunM.environment
        RunM.ofExcept (t.evalExpr env steps j))
      RunM.store symbol v ("#" ++ Text.Decimal.ofNat symbol.index) (t.line i)) := by
    simp only [runAssign, here.load_eq, RunM.ofExcept_ok_bind, leaf.symbolAt_eq]
    rfl
  rw [assigned]
  refine (Simulates.look fun env symbols => ?_).bind fun v => store_simulates named v _ _
  subst symbols
  exact evalExpr_evaluates value right

theorem namesAt_evaluates : {steps : Nat} → {id : NodeId} → (ids : IdList String) →
    t.Holds table.name? ids.derivation id →
    Evaluates (ids.derivation.size ≤ steps) (t.namesAt table steps id) (.ok ids.names)
  | 0, _, ids, _ => .unfinished (Nat.not_le.2 ids.derivation.one_le_size)
  | steps + 1, _, .last x, held => by
    obtain ⟨i, here, symbol, leaf, named⟩ := held
    intro _
    simp only [namesAt, here.load_eq, ok_bind, leaf.symbolAt_eq, nameOf_eq named]
    rfl
  | steps + 1, _, .cons x rest, held => by
    obtain ⟨i, j, here, ⟨symbol, leaf, named⟩, others⟩ := held
    simp only [namesAt, here.load_eq, ok_bind, leaf.symbolAt_eq, nameOf_eq named]
    have listed := (namesAt_evaluates rest others).mono
      (show (IdList.cons x rest).derivation.size ≤ steps + 1 → _ ≤ steps by
        simp [IdList.derivation]; omega)
    exact listed.bind fun names => .ok (x.var :: names)

/-- The names that a tree holds are those of symbols. -/
theorem named_of_holds : {id : NodeId} → (ids : IdList String) →
    t.Holds table.name? ids.derivation id →
      ∀ name ∈ ids.names, ∃ symbol, table.name? symbol = some name
  | _, .last x, ⟨_, _, symbol, _, named⟩, name, mem => by
    obtain rfl := List.mem_singleton.1 mem
    exact ⟨symbol, named⟩
  | _, .cons x rest, ⟨_, _, _, ⟨symbol, _, named⟩, others⟩, name, mem => by
    rcases List.mem_cons.1 mem with rfl | mem
    · exact ⟨symbol, named⟩
    · exact named_of_holds rest others name mem

theorem readName_simulates {P : Prop} {symbol : Symbol} {name : String}
    (named : table.name? symbol = some name) (line : Nat) :
    Simulates table P (RunM.nextValue line >>= fun v => RunM.storeByName name v line)
      (readName line name) := by
  intro m symbols ends
  cases told : m.input.next line with
  | mk result input =>
    cases result with
    | error e =>
      refine .inr ⟨e, { m with input := input }, symbols, ?_, ?_⟩
      · simp only [Bind.bind, EStateM.bind, RunM.nextValue, told]
      · simp [readName, Machine.view, told]
    | ok v =>
      -- the name has a symbol, so storing by name is storing by this symbol
      have stored := store_simulates (P := P) named v name line { m with input := input } symbols
      have same : (RunM.nextValue line >>= fun v => RunM.storeByName name v line) m =
          RunM.store symbol v name line { m with input := input } := by
        have resolved : m.env.symbols.resolve? name = some symbol :=
          SymbolTable.resolve?_eq_some_iff.2 (symbols ▸ named)
        simp only [Bind.bind, EStateM.bind, RunM.nextValue, told, RunM.storeByName, RunM.store,
          Environment.setByName?, resolved, Option.bind_some]
      have meaning : readName line name m.view =
          (modify (·.store name v) : Effect Unit) { m with input := input }.view := by
        simp only [readName, Machine.view, told]
        rfl
      rw [same, meaning]
      rw [same] at ends
      exact stored ends

theorem readValues_simulates {P : Prop} {line : Nat} {names : List String}
    (named : ∀ name ∈ names, ∃ symbol, table.name? symbol = some name) :
    Simulates table P (readValues line names) (forNames (readName line) names) := by
  induction names with
  | nil => exact .pure ()
  | cons name others ih =>
    obtain ⟨symbol, first⟩ := named name List.mem_cons_self
    have split : readValues line (name :: others) = (do
        (do
          let v ← RunM.nextValue line
          RunM.storeByName name v line)
        readValues line others) := by
      simp only [readValues, bind_assoc]
    rw [split]
    exact (readName_simulates first line).bind fun _ =>
      ih fun name mem => named name (List.mem_cons_of_mem _ mem)

theorem writeName_simulates {P : Prop} {name : String} {line : Nat} :
    Simulates table P
      (do
        match (← RunM.environment).getByName? name with
        | none => RunM.fault (.uninitializedVariable name line)
        | some value => RunM.emit (bindingLine name value) line)
      (writeName line name) := by
  intro m symbols _
  simp only [Bind.bind, EStateM.bind, RunM.environment, writeName, Machine.view]
  cases m.env.getByName? name with
  | none => exact .inr ⟨_, m, symbols, rfl, rfl⟩
  | some v =>
    cases told : m.sink.writeText (bindingLine name v) with
    | mk result sink =>
      have written : m.sink.writeText (name ++ " = " ++ Number.text v ++ "\n") = (result, sink) :=
        told
      cases result with
      | error reason =>
        exact .inr ⟨.io reason line, { m with sink := sink }, symbols, by simp [RunM.emit, told],
          by simp [Machine.view, written]⟩
      | ok _ =>
        exact .inl ⟨(), { m with sink := sink }, symbols, by simp [RunM.emit, told],
          by simp [Machine.view, written]⟩

theorem writeValues_simulates {P : Prop} {line : Nat} {names : List String} :
    Simulates table P (writeValues line names) (forNames (writeName line) names) := by
  induction names with
  | nil => exact .pure ()
  | cons name others ih =>
    have split : writeValues line (name :: others) = (do
        (do
          match (← RunM.environment).getByName? name with
          | none => RunM.fault (.uninitializedVariable name line)
          | some value => RunM.emit (bindingLine name value) line)
        writeValues line others) := by
      funext m
      simp only [writeValues, Bind.bind, EStateM.bind, RunM.environment]
      cases m.env.getByName? name <;> rfl
    rw [split]
    exact writeName_simulates.bind fun _ => ih

theorem runInput_simulates {ids : IdList String} {line : Nat}
    (held : t.Holds table.name? (.input line ids.derivation) id) :
    Simulates table (ids.derivation.size ≤ steps) (t.runInput steps id)
      (forNames (readName line) ids.names) := by
  obtain ⟨i, here, inner⟩ := held
  simp only [runInput, here.load_eq, RunM.ofExcept_ok_bind, here.line_eq]
  refine Simulates.known (fun env symbols => ?_) (readValues_simulates (named_of_holds ids inner))
  rw [symbols]
  exact namesAt_evaluates ids inner

theorem runOutput_simulates {ids : IdList String} {line : Nat}
    (held : t.Holds table.name? (.output line ids.derivation) id) :
    Simulates table (ids.derivation.size ≤ steps) (t.runOutput steps id)
      (forNames (writeName line) ids.names) := by
  obtain ⟨i, here, inner⟩ := held
  simp only [runOutput, here.load_eq, RunM.ofExcept_ok_bind, here.line_eq]
  refine Simulates.known (fun env symbols => ?_) writeValues_simulates
  rw [symbols]
  exact namesAt_evaluates ids inner

theorem flush_simulates {P : Prop} {line : Nat} :
    Simulates table P (RunM.flush line) (flushOutput line) := by
  intro m symbols _
  cases told : m.sink.flush with
  | ok _ => exact .inl ⟨(), m, symbols, by simp [RunM.flush, told],
      by simp [flushOutput, Machine.view, told]⟩
  | error reason => exact .inr ⟨.io reason line, m, symbols, by simp [RunM.flush, told],
      by simp [flushOutput, Machine.view, told]⟩

end Tree

end CoreLang
