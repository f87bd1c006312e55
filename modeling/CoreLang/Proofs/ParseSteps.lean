import CoreLang.Proofs.Reader
import CoreLang.Proofs.Derivation

/-!
# What a stretch of parsing does

Every rule of the grammar that succeeds takes some tokens off the front of the
text, settles some nodes, meets some names and goes some levels in, and leaves all
else in its state as it was. `Passes` says so, and composes. `Fits` says before the
fact that a stretch of text is there and that there is room for its nodes, levels
and names; it comes apart in the same way.
-/

namespace CoreLang

theorem Token.terminal_eq_keyword_iff {token : Token} {word : Keyword} :
    token.terminal = .keyword word ↔ token = .keyword word := by
  cases token <;> simp [Token.terminal]

theorem Token.terminal_eq_mark_iff {token : Token} {sign : Mark} :
    token.terminal = .mark sign ↔ token = .mark sign := by
  cases token <;> simp [Token.terminal]

theorem Token.terminal_eq_identifier_iff {token : Token} {name : String} :
    token.terminal = .identifier name ↔ token = .identifier name := by
  cases token <;> simp [Token.terminal]

theorem Token.terminal_eq_integer_iff {token : Token} {value : Int64} :
    token.terminal = .integer value ↔
      ∃ digits, token = .integer digits ∧ literal digits = value := by
  cases token <;> simp [Token.terminal]

/-- The symbol that a table has for a name, or would have for the next one. -/
def SymbolTable.index (t : SymbolTable) (name : String) : Symbol :=
  ⟨t.names.idxOf name⟩

theorem SymbolTable.name?_index {t : SymbolTable} {name : String} (declared : name ∈ t.names) :
    t.name? (t.index name) = some name :=
  have bound := List.idxOf_lt_length_of_mem declared
  List.getElem?_eq_some_iff.2 ⟨bound, List.getElem_idxOf bound⟩

theorem SymbolTable.resolve?_eq_some_index {t : SymbolTable} {name : String}
    (declared : name ∈ t.names) : t.resolve? name = some (t.index name) :=
  resolve?_eq_some_iff.2 (name?_index declared)

namespace ParseM

/-! ### Names -/

namespace Site

/-- The names of a place are in order: known where they are used, and all new where
they are declared, with symbols enough for them. -/
def Admits : Site → List String → List String → Prop
  | .uses, declared, names => ∀ x ∈ names, x ∈ declared
  | .declares, declared, names =>
    (declared ++ names).Nodup ∧ (declared ++ names).length ≤ Symbol.limit

/-- The names that are declared behind a place. -/
def after : Site → List String → List String → List String
  | .uses, declared, _ => declared
  | .declares, declared, names => declared ++ names

theorem after_append (site : Site) (declared xs ys : List String) :
    site.after declared (xs ++ ys) = site.after (site.after declared xs) ys := by
  cases site <;> simp [after]

theorem after_nil (site : Site) (declared : List String) : site.after declared [] = declared := by
  cases site <;> simp [after]

theorem Admits.left {site : Site} {declared xs ys : List String}
    (h : site.Admits declared (xs ++ ys)) : site.Admits declared xs := by
  cases site with
  | uses => exact fun x hx => h x (List.mem_append_left _ hx)
  | declares =>
    refine ⟨h.1.sublist (by simp), ?_⟩
    have := h.2
    simp only [List.length_append] at this ⊢
    omega

theorem Admits.right {site : Site} {declared xs ys : List String}
    (h : site.Admits declared (xs ++ ys)) : site.Admits (site.after declared xs) ys := by
  cases site with
  | uses => exact fun x hx => h x (List.mem_append_right _ hx)
  | declares => simpa [Admits, after] using h

end Site

end ParseM

/-! ### The text ahead -/

namespace ParseState

/-- The tokens ahead, without the end of the text. -/
def ahead (s : ParseState) : List Lexeme :=
  if s.lookahead.token = .eof then [] else s.lookahead :: s.upcoming

/-- What the grammar sees of the tokens ahead. -/
def text (s : ParseState) : List Terminal :=
  s.ahead.map Lexeme.terminal

/-- The text goes on to its end without a fault. -/
def Whole (s : ParseState) : Prop :=
  ∃ line, s.ending = .eof line

/-- What holds of every state of a parse. -/
structure Ready (s : ParseState) : Prop where
  solid : ∀ l ∈ s.upcoming, l.token ≠ .eof
  ended : s.lookahead.token = .eof → s.upcoming = [] ∧ s.Whole
  counted : s.ahead.length ≤ s.tokenCount
  room : s.budget.used ≤ s.budget.capacity
  shallow : s.depth ≤ ParseM.maxNesting
  numbered : s.symbols.names.length ≤ Symbol.limit

theorem text_eq_nil_iff {s : ParseState} : s.text = [] ↔ s.lookahead.token = .eof := by
  unfold text ahead
  split <;> simp_all

/-- The first token ahead is the one looked at. -/
theorem terminal_of_text_eq_cons {s : ParseState} {t : Terminal} {rest : List Terminal}
    (h : s.text = t :: rest) : s.lookahead.token.terminal = t := by
  unfold text ahead at h
  split at h
  · simp at h
  · simp only [List.map_cons, List.cons.injEq] at h
    exact h.1

theorem text_eq_cons {s : ParseState} (more : s.lookahead.token ≠ .eof) :
    s.text = s.lookahead.token.terminal :: s.upcoming.map Lexeme.terminal := by
  simp [text, ahead, more, Lexeme.terminal]

/-! ### Bookkeeping -/

/-- One more node is reserved. -/
def reserved (s : ParseState) : ParseState :=
  { s with budget := { s.budget with reserved := s.budget.reserved + 1 } }

/-- A reserved node is finished. -/
def settled (s : ParseState) : ParseState :=
  { s with budget := s.budget.settle }

/-- One level further in. -/
def entered (s : ParseState) : ParseState :=
  { s with depth := s.depth + 1 }

/-- One level further out. -/
def left (s : ParseState) : ParseState :=
  { s with depth := s.depth - 1 }

@[simp] theorem text_reserved (s : ParseState) : s.reserved.text = s.text := rfl
@[simp] theorem text_settled (s : ParseState) : s.settled.text = s.text := rfl
@[simp] theorem text_entered (s : ParseState) : s.entered.text = s.text := rfl
@[simp] theorem text_left (s : ParseState) : s.left.text = s.text := rfl

theorem Ready.reserved {s : ParseState} (h : s.Ready) (free : s.budget.used < s.budget.capacity) :
    s.reserved.Ready where
  solid := h.solid
  ended := h.ended
  counted := h.counted
  room := by
    simp only [ParseState.reserved, Budget.used] at free ⊢
    omega
  shallow := h.shallow
  numbered := h.numbered

theorem Ready.settled {s : ParseState} (h : s.Ready) (pending : 0 < s.budget.reserved) :
    s.settled.Ready where
  solid := h.solid
  ended := h.ended
  counted := h.counted
  room := by
    have := h.room
    simp only [ParseState.settled, Budget.settle, Budget.used] at this ⊢
    omega
  shallow := h.shallow
  numbered := h.numbered

theorem Ready.entered {s : ParseState} (h : s.Ready) (free : s.depth < ParseM.maxNesting) :
    s.entered.Ready where
  solid := h.solid
  ended := h.ended
  counted := h.counted
  room := h.room
  shallow := free
  numbered := h.numbered

theorem Ready.left {s : ParseState} (h : s.Ready) : s.left.Ready where
  solid := h.solid
  ended := h.ended
  counted := h.counted
  room := h.room
  shallow := Nat.le_trans (Nat.sub_le _ _) h.shallow
  numbered := h.numbered

end ParseState

namespace ParseM

/-! ### Stretches of text -/

/-- From `s` to `s'` the parse took `tokens` off the text, settled `nodes` nodes, met
`names` at places of the given kind and went `levels` levels in. -/
structure Passes (site : Site) (s : ParseState) (tokens : List Terminal) (nodes : Nat)
    (names : List String) (levels : Nat) (s' : ParseState) : Prop where
  text : s.text = tokens ++ s'.text
  budget : s'.budget = { s.budget with built := s.budget.built + nodes }
  symbols : s'.symbols.names = site.after s.symbols.names names
  known : site = .uses → ∀ x ∈ names, x ∈ s.symbols.names
  levels : s.depth + levels ≤ maxNesting
  depth : s'.depth = s.depth
  ending : s'.ending = s.ending
  tokenCount : s'.tokenCount = s.tokenCount
  ready : s'.Ready

namespace Passes

variable {site : Site} {s s' t u : ParseState} {ts us : List Terminal} {n m k l : Nat}
  {xs ys : List String}

theorem trans (h : Passes site s ts n xs k t) (h' : Passes site t us m ys l u) :
    Passes site s (ts ++ us) (n + m) (xs ++ ys) (max k l) u where
  text := by rw [h.text, h'.text, List.append_assoc]
  budget := by rw [h'.budget, h.budget, Nat.add_assoc]
  symbols := by rw [h'.symbols, h.symbols, site.after_append]
  known uses x hx := by
    subst uses
    rcases List.mem_append.1 hx with hx | hx
    · exact h.known rfl x hx
    · have := h'.known rfl x hx
      rwa [h.symbols] at this
  levels := by
    have := h.levels
    have := h'.levels
    have := h.depth
    omega
  depth := h'.depth.trans h.depth
  ending := h'.ending.trans h.ending
  tokenCount := h'.tokenCount.trans h.tokenCount
  ready := h'.ready

/-- A rule between reserving its node and settling it. -/
theorem node (h : Passes site s.reserved ts n xs k t) :
    Passes site s ts (n + 1) xs k t.settled where
  text := h.text
  budget := by
    simp only [ParseState.settled, Budget.settle, h.budget, ParseState.reserved]
    simp [Nat.add_assoc]
  symbols := h.symbols
  known := h.known
  levels := h.levels
  depth := h.depth
  ending := h.ending
  tokenCount := h.tokenCount
  ready := h.ready.settled (by simp [h.budget, ParseState.reserved])

/-- A rule between going in and coming out. -/
theorem nested (h : Passes site s.entered ts n xs k t) : Passes site s ts n xs (k + 1) t.left where
  text := h.text
  budget := h.budget
  symbols := h.symbols
  known := h.known
  levels := by
    have := h.levels
    simp only [ParseState.entered] at this
    omega
  depth := by simp [ParseState.left, h.depth, ParseState.entered]
  ending := h.ending
  tokenCount := h.tokenCount
  ready := h.ready.left

/-- Where names are used, none are declared. -/
theorem symbols_eq (h : Passes .uses s ts n xs k t) : t.symbols = s.symbols :=
  SymbolTable.ext_names h.symbols

theorem symbols_eq_of_nil (h : Passes site s ts n [] k t) : t.symbols = s.symbols :=
  SymbolTable.ext_names (by rw [h.symbols, site.after_nil])

theorem mem_symbols (h : Passes site s ts n xs k t) {x : String} (hx : x ∈ xs) :
    x ∈ t.symbols.names := by
  rw [h.symbols]
  cases site with
  | uses => exact h.known rfl x hx
  | declares => exact List.mem_append_right _ hx

/-- A name keeps its symbol while more names are declared. -/
theorem index_eq (h : Passes site s ts n xs k t) {x : String} (hx : x ∈ s.symbols.names) :
    t.symbols.index x = s.symbols.index x := by
  simp only [SymbolTable.index, h.symbols]
  cases site with
  | uses => rfl
  | declares => simp only [Site.after, List.idxOf_append, hx, if_true]

theorem rename_index {α : Type} {tag : Tag} (h : Passes site s ts n xs k t)
    {d : Derivation α String tag} (known : ∀ x ∈ d.vars, x ∈ s.symbols.names) :
    d.rename s.symbols.index = d.rename t.symbols.index :=
  Derivation.map_congr fun x hx => (h.index_eq (known x hx)).symm

theorem whole (h : Passes site s ts n xs k t) (whole : s.Whole) : t.Whole := by
  obtain ⟨line, eof⟩ := whole
  exact ⟨line, h.ending.trans eof⟩

end Passes

/-- Ahead of `s` stand `tokens` and then `rest`, and there is room for `nodes` nodes and
for `deep` of the `levels` levels that may still be entered; the names are in order. -/
structure Fits (site : Site) (levels : Nat) (s : ParseState) (tokens : List Terminal)
    (nodes : Nat) (names : List String) (deep : Nat) (rest : List Terminal) : Prop where
  ready : s.Ready
  whole : s.Whole
  text : s.text = tokens ++ rest
  room : s.budget.used + nodes ≤ s.budget.capacity
  names : site.Admits s.symbols.names names
  within : deep ≤ levels
  levels : s.depth + levels = maxNesting

namespace Fits

variable {site : Site} {levels : Nat} {s t : ParseState} {ts us rest : List Terminal}
  {n m k l : Nat} {xs ys : List String}

/-- The first of two parts fits. -/
theorem first (h : Fits site levels s (ts ++ us) (n + m) (xs ++ ys) k rest) (le : l ≤ k) :
    Fits site levels s ts n xs l (us ++ rest) where
  ready := h.ready
  whole := h.whole
  text := by rw [h.text, List.append_assoc]
  room := Nat.le_trans (by omega) h.room
  names := h.names.left
  within := Nat.le_trans le h.within
  levels := h.levels

/-- The second of two parts fits where the first one ends. -/
theorem second (h : Fits site levels s (ts ++ us) (n + m) (xs ++ ys) k rest)
    (passes : Passes site s ts n xs l t) {l' : Nat} (le : l' ≤ k) :
    Fits site levels t us m ys l' rest where
  ready := passes.ready
  whole := passes.whole h.whole
  text := by
    have := h.text
    rw [passes.text, List.append_assoc] at this
    exact List.append_cancel_left this
  room := by
    have := h.room
    simp only [passes.budget, Budget.used] at this ⊢
    omega
  names := by
    rw [passes.symbols]
    exact h.names.right
  within := Nat.le_trans le h.within
  levels := by rw [passes.depth, h.levels]

/-- A part fits that only marks and keywords follow. -/
theorem front (h : Fits site levels s (ts ++ us) n xs k rest) (le : l ≤ k) :
    Fits site levels s ts n xs l (us ++ rest) := by
  have parts : Fits site levels s (ts ++ us) (n + 0) (xs ++ []) k rest := by simpa using h
  exact parts.first le

/-- The marks and keywords behind a part fit. -/
theorem back (h : Fits site levels s (ts ++ us) n xs k rest) (passes : Passes site s ts n xs l t) :
    Fits site levels t us 0 [] 0 rest :=
  second (by simpa using h) passes (Nat.zero_le k)

theorem free (h : Fits site levels s ts (n + 1) xs k rest) : s.budget.used < s.budget.capacity :=
  Nat.lt_of_lt_of_le (by omega) h.room

theorem node (h : Fits site levels s ts (n + 1) xs k rest) :
    Fits site levels s.reserved ts n xs k rest where
  ready := h.ready.reserved h.free
  whole := h.whole
  text := h.text
  room := by
    have := h.room
    simp only [ParseState.reserved, Budget.used] at this ⊢
    omega
  names := h.names
  within := h.within
  levels := h.levels

theorem nested (h : Fits site (levels + 1) s ts n xs (k + 1) rest) :
    Fits site levels s.entered ts n xs k rest where
  ready := h.ready.entered (by have := h.levels; omega)
  whole := h.whole
  text := h.text
  room := h.room
  names := h.names
  within := Nat.le_of_succ_le_succ h.within
  levels := by
    have := h.levels
    simp only [ParseState.entered]
    omega

end Fits

/-! ### Steps of a parse -/

section Steps

variable {α β : Type} {site : Site} {s s' : ParseState}

theorem bind_eq_ok {x : ParseM α} {f : α → ParseM β} {b : β} :
    (x >>= f) s = .ok b s' ↔ ∃ a t, x s = .ok a t ∧ f a t = .ok b s' := by
  change EStateM.bind x f s = .ok b s' ↔ _
  unfold EStateM.bind
  cases x s with
  | ok a t =>
    constructor
    · exact fun h => ⟨a, t, rfl, h⟩
    · rintro ⟨a', t', found, h⟩
      cases found
      exact h
  | error e t => simp

theorem pure_eq_ok {a b : α} : (pure a : ParseM α) s = .ok b s' ↔ a = b ∧ s = s' := by
  change EStateM.Result.ok a s = .ok b s' ↔ _
  simp

theorem peek_eq_ok {token : Token} :
    peek s = .ok token s' ↔ s.lookahead.token = token ∧ s = s' := by
  simp [peek]

theorem peekLine_eq_ok {line : Nat} :
    peekLine s = .ok line s' ↔ s.lookahead.line = line ∧ s = s' := by
  simp [peekLine]

theorem unexpected_ne_ok {expected : Expected} {a : α} : unexpected expected s ≠ .ok a s' := by
  simp [unexpected]

theorem reserve_eq_ok :
    reserve s = .ok () s' ↔ s.budget.used < s.budget.capacity ∧ s.reserved = s' := by
  by_cases free : s.budget.used < s.budget.capacity <;>
    simp [reserve, Budget.reserve?, free, ParseState.reserved]

theorem enter_eq_ok : enter s = .ok () s' ↔ s.depth < maxNesting ∧ s.entered = s' := by
  by_cases free : s.depth < maxNesting <;> simp [enter, free, tooDeep, ParseState.entered]

theorem node_eq_ok {rule : ParseM α} {a : α} :
    node rule s = .ok a s' ↔
      s.budget.used < s.budget.capacity ∧ ∃ t, rule s.reserved = .ok a t ∧ t.settled = s' := by
  simp only [node, bind_eq_ok, pure_eq_ok]
  constructor
  · rintro ⟨_, _, reserving, a', t, inner, _, _, settling, rfl, rfl⟩
    obtain ⟨free, rfl⟩ := reserve_eq_ok.1 reserving
    exact ⟨free, t, inner, (EStateM.Result.ok.inj settling).2⟩
  · rintro ⟨free, t, inner, rfl⟩
    exact ⟨(), _, reserve_eq_ok.2 ⟨free, rfl⟩, a, t, inner, (), _, rfl, rfl, rfl⟩

theorem nested_eq_ok {rule : ParseM α} {a : α} :
    nested rule s = .ok a s' ↔
      s.depth < maxNesting ∧ ∃ t, rule s.entered = .ok a t ∧ t.left = s' := by
  simp only [nested, bind_eq_ok, pure_eq_ok]
  constructor
  · rintro ⟨_, _, entering, a', t, inner, _, _, leaving, rfl, rfl⟩
    obtain ⟨free, rfl⟩ := enter_eq_ok.1 entering
    exact ⟨free, t, inner, (EStateM.Result.ok.inj leaving).2⟩
  · rintro ⟨free, t, inner, rfl⟩
    exact ⟨(), _, enter_eq_ok.2 ⟨free, rfl⟩, a, t, inner, (), _, rfl, rfl, rfl⟩

theorem expect_eq_ok {token : Token} {expected : Expected} :
    expect token expected s = .ok () s' ↔ s.lookahead.token = token ∧ advance s = .ok () s' := by
  simp only [expect, bind_eq_ok, peek_eq_ok]
  constructor
  · rintro ⟨seen, t, ⟨rfl, rfl⟩, h⟩
    split at h
    · next same => exact ⟨same, h⟩
    · exact absurd h unexpected_ne_ok
  · rintro ⟨rfl, h⟩
    exact ⟨_, s, ⟨rfl, rfl⟩, by simpa using h⟩

/-- Stepping past a token takes it off the text and changes nothing else. -/
theorem advance_passes (site : Site) (ready : s.Ready) (more : s.lookahead.token ≠ .eof)
    (h : advance s = .ok () s') : Passes site s [s.lookahead.token.terminal] 0 [] 0 s' := by
  unfold advance at h
  rw [if_neg more] at h
  split at h
  · next ending l ls upcoming =>
    obtain rfl := (EStateM.Result.ok.inj h).2
    have solid : l.token ≠ .eof := ready.solid l (by rw [upcoming]; exact List.mem_cons_self)
    have text : s.text = [s.lookahead.token.terminal] ++
        ({ s with lookahead := l, upcoming := ls } : ParseState).text := by
      rw [s.text_eq_cons more, ParseState.text_eq_cons (by exact solid)]
      simp [upcoming, Lexeme.terminal]
    refine ⟨text, rfl, (site.after_nil _).symm, fun _ _ => List.not_mem_nil.elim, ready.shallow,
      rfl, rfl, rfl, ?_, ?_, ?_, ready.room, ready.shallow, ready.numbered⟩
    · exact fun l' hl' => ready.solid l' (by rw [upcoming]; exact List.mem_cons_of_mem _ hl')
    · exact fun ended => absurd ended solid
    · have := ready.counted
      simp only [ParseState.ahead, more, solid, upcoming, if_false, List.length_cons] at this ⊢
      omega
  · next line upcoming eof =>
    obtain rfl := (EStateM.Result.ok.inj h).2
    have text : s.text = [s.lookahead.token.terminal] ++
        ({ s with lookahead := { token := .eof, line := line } } : ParseState).text := by
      rw [s.text_eq_cons more, upcoming]
      simp [ParseState.text, ParseState.ahead]
    refine ⟨text, rfl, (site.after_nil _).symm, fun _ _ => List.not_mem_nil.elim, ready.shallow,
      rfl, rfl, rfl, ready.solid, fun _ => ⟨upcoming, line, eof⟩, ?_, ready.room, ready.shallow,
      ready.numbered⟩
    simp [ParseState.ahead]
  · cases h

/-- Short of its end, a text without a fault can be stepped through. -/
theorem exists_advance (whole : s.Whole) : ∃ s', advance s = .ok () s' := by
  obtain ⟨line, eof⟩ := whole
  unfold advance
  split
  · exact ⟨s, rfl⟩
  · cases s.upcoming with
    | nil => simp [eof]
    | cons l ls => simp

theorem expect_passes {token : Token} {expected : Expected} (site : Site) (ready : s.Ready)
    (solid : token ≠ .eof) (h : expect token expected s = .ok () s') :
    Passes site s [token.terminal] 0 [] 0 s' := by
  obtain ⟨seen, step⟩ := expect_eq_ok.1 h
  rw [← seen] at solid ⊢
  exact advance_passes site ready solid step

/-- Binding a name takes no token. -/
theorem bindName_passes {name : String} {symbol : Symbol} (ready : s.Ready)
    (h : bindName site name s = .ok symbol s') :
    Passes site s [] 0 [name] 0 s' ∧ symbol = s'.symbols.index name ∧
      s'.lookahead = s.lookahead := by
  cases site with
  | uses =>
    simp only [bindName] at h
    split at h
    · next found resolved =>
      obtain ⟨rfl, rfl⟩ := EStateM.Result.ok.inj h
      have declared : name ∈ s.symbols.names :=
        List.mem_of_getElem? (SymbolTable.resolve?_eq_some_iff.1 resolved)
      rw [SymbolTable.resolve?_eq_some_index declared] at resolved
      refine ⟨⟨rfl, rfl, rfl, ?_, ready.shallow, rfl, rfl, rfl, ready⟩,
        (Option.some.inj resolved).symm, rfl⟩
      simpa using declared
    · cases h
  | declares =>
    simp only [bindName] at h
    split at h
    · next found table declared =>
      obtain ⟨rfl, rfl⟩ := EStateM.Result.ok.inj h
      obtain ⟨fresh, more, rfl, names⟩ := SymbolTable.of_declare?_eq_some declared
      refine ⟨⟨rfl, rfl, names, by simp, ready.shallow, rfl, rfl, rfl, ready.solid,
        ready.ended, ready.counted, ready.room, ready.shallow,
        by simpa [names] using Nat.succ_le_of_lt more⟩, ?_, rfl⟩
      simp [SymbolTable.index, names, List.idxOf_append, fresh]
    · cases h

theorem exists_bindName {name : String} (admits : site.Admits s.symbols.names [name]) :
    ∃ symbol s', bindName site name s = .ok symbol s' := by
  cases site with
  | uses =>
    have declared : name ∈ s.symbols.names := admits name List.mem_cons_self
    exact ⟨s.symbols.index name, s, by
      simp [bindName, SymbolTable.resolve?_eq_some_index declared]⟩
  | declares =>
    have fresh : name ∉ s.symbols.names := fun member =>
      (List.nodup_append.1 admits.1).2.2 name member name List.mem_cons_self rfl
    have more : s.symbols.names.length < Symbol.limit := by
      have := admits.2
      simp only [List.length_append, List.length_cons, List.length_nil] at this
      omega
    obtain ⟨table, added, -⟩ := SymbolTable.exists_declare? fresh more
    exact ⟨⟨s.symbols.names.length⟩, { s with symbols := table }, by simp only [bindName, added]⟩

end Steps

namespace Fits

variable {site : Site} {levels : Nat} {s : ParseState} {t : Terminal} {us rest : List Terminal}
  {n k : Nat} {xs : List String}

/-- The token ahead can be stepped past, and what follows it fits. -/
theorem advance (h : Fits site levels s (t :: us) n xs k rest) :
    ∃ s', ParseM.advance s = .ok () s' ∧ Passes site s [t] 0 [] 0 s' ∧
      Fits site levels s' us n xs k rest := by
  have seen := ParseState.terminal_of_text_eq_cons h.text
  have more : s.lookahead.token ≠ .eof := fun ended => by
    have := h.text
    rw [ParseState.text_eq_nil_iff.2 ended] at this
    cases this
  obtain ⟨s', step⟩ := exists_advance h.whole
  have passes : Passes site s [t] 0 [] 0 s' := seen ▸ advance_passes site h.ready more step
  have split : Fits site levels s ([t] ++ us) (0 + n) ([] ++ xs) k rest := by simpa using h
  exact ⟨s', step, passes, split.second passes (Nat.le_refl k)⟩

theorem keyword_ahead {word : Keyword} (h : Fits site levels s (.keyword word :: us) n xs k rest) :
    s.lookahead.token = .keyword word :=
  Token.terminal_eq_keyword_iff.1 (ParseState.terminal_of_text_eq_cons h.text)

theorem mark_ahead {sign : Mark} (h : Fits site levels s (.mark sign :: us) n xs k rest) :
    s.lookahead.token = .mark sign :=
  Token.terminal_eq_mark_iff.1 (ParseState.terminal_of_text_eq_cons h.text)

theorem expectKeyword {word : Keyword} (expected : Expected)
    (h : Fits site levels s (.keyword word :: us) n xs k rest) :
    ∃ s', ParseM.expect (.keyword word) expected s = .ok () s' ∧
      Passes site s [.keyword word] 0 [] 0 s' ∧ Fits site levels s' us n xs k rest := by
  obtain ⟨s', step, passes, fits⟩ := h.advance
  exact ⟨s', expect_eq_ok.2 ⟨h.keyword_ahead, step⟩, passes, fits⟩

theorem expectMark {sign : Mark} (expected : Expected)
    (h : Fits site levels s (.mark sign :: us) n xs k rest) :
    ∃ s', ParseM.expect (.mark sign) expected s = .ok () s' ∧
      Passes site s [.mark sign] 0 [] 0 s' ∧ Fits site levels s' us n xs k rest := by
  obtain ⟨s', step, passes, fits⟩ := h.advance
  exact ⟨s', expect_eq_ok.2 ⟨h.mark_ahead, step⟩, passes, fits⟩

end Fits

end ParseM

end CoreLang
