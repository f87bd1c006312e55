import CoreLang.Proofs.Future

/-!
# Rules that heed what may follow

A rule of the grammar starts where the texts of one future may follow and ends where those
of another one may. It heeds them if it takes nothing that could not be gone on with, and
if it stops only at a token that no text of the future has there (`Heeds`). The primitive
steps do so, and it is kept by putting rules together, where looking at the next token
may narrow the future to the texts that begin with it (`Heeds.narrow`).
-/

namespace CoreLang

theorem Token.terminal_eq_eof_iff {token : Token} : token.terminal = .eof ↔ token = .eof := by
  cases token <;> simp [Token.terminal]

/-- The text and the line of the token that a fault blames, if it blames one. -/
def ParseError.blamed? : ParseError → Option (String × Nat)
  | .unexpected _ found line | .trailingTokens found line => some (found, line)
  | .duplicateVariable name line | .undeclaredVariable name line => some (name, line)
  | _ => none

/-- A fault of the scanner blames no token. -/
@[simp] theorem ParseError.blamed?_ofScan (fault : ScanFault) : (ofScan fault).blamed? = none := by
  unfold ofScan
  repeat' split
  all_goals rfl

/-- Whether a fault is one of the scanner. -/
def ParseError.IsLexical : ParseError → Prop
  | .invalidCharacter .. | .invalidToken .. | .whitespaceRequired .. | .literalTooLarge .. => True
  | _ => False

theorem ParseError.blamed?_of_isLexical {e : ParseError} (h : e.IsLexical) : e.blamed? = none := by
  cases e <;> simp_all [IsLexical, blamed?]

/-- Among the tokens there is one with this text and line such that the tokens before it
can be gone on with, and those up to it cannot. -/
def Blames (M : List Terminal → Prop) (tokens : List Lexeme) (text : String) (line : Nat) : Prop :=
  ∃ before lexeme after, tokens = before ++ lexeme :: after ∧ lexeme.text = text ∧
    lexeme.line = line ∧ Live (fun u => M (before.map Lexeme.terminal ++ u)) ∧
      ∀ u, ¬ M (before.map Lexeme.terminal ++ lexeme.terminal :: u)

namespace ParseState

/-- The names declared so far. -/
abbrev names (s : ParseState) : List String := s.symbols.names

/-- What the grammar sees of the token ahead. -/
def next (s : ParseState) : Terminal := s.lookahead.terminal

/-- The tokens ahead, with the end of the text as a last one if there is no fault. -/
def rest (s : ParseState) : List Lexeme :=
  TokenStream.withEnd { lexemes := s.ahead, ending := s.ending }

/-- What holds of every state of a parse of a text with so much room that every name has
a symbol. -/
structure Sane (s : ParseState) : Prop where
  ready : s.Ready
  last : s.lookahead.token = .eof → s.ending = .eof s.lookahead.line
  counted : s.names.length ≤ s.budget.used
  addressable : s.budget.capacity ≤ Symbol.limit
  written : ∀ t ∈ s.text, t.Written
  named : ∀ x ∈ s.names, IsName x

namespace Sane

variable {s t : ParseState}

theorem proper (h : s.Sane) (some_name : s.names ≠ []) : ProperNames s.names :=
  ⟨some_name, s.symbols.distinct, h.named⟩

theorem exists_rest (h : s.Sane) : ∃ tail, s.rest = s.lookahead :: tail := by
  by_cases ended : s.lookahead.token = .eof
  · refine ⟨[], ?_⟩
    have line := h.last ended
    have eof : s.lookahead = { token := .eof, line := s.lookahead.line } := by
      rw [← ended]
    rw [rest, TokenStream.withEnd, line, ahead, if_pos ended]
    simpa using eof.symm
  · rw [rest, TokenStream.withEnd, ahead, if_neg ended]
    cases s.ending with
    | eof line => exact ⟨_, rfl⟩
    | fault fault => exact ⟨_, rfl⟩

theorem written_ahead (h : s.Sane) (more : s.lookahead.token ≠ .eof) :
    s.lookahead.token.terminal.Written := by
  refine h.written _ ?_
  rw [s.text_eq_cons more]
  exact List.mem_cons_self

/-- A text that begins like the tokens ahead begins with the first of them. -/
theorem head?_eq (h : s.Sane) {before after : List Lexeme} {lexeme : Lexeme}
    (ahead : s.rest = before ++ lexeme :: after) (v : List Terminal) :
    (before.map Lexeme.terminal ++ lexeme.terminal :: v).head? = some s.next := by
  obtain ⟨tail, here⟩ := h.exists_rest
  rw [here] at ahead
  cases before with
  | nil =>
    obtain ⟨same, -⟩ := List.cons.inj ahead
    rw [List.map_nil, List.nil_append, List.head?_cons, next, same]
  | cons first others =>
    obtain ⟨same, -⟩ := List.cons.inj ahead
    rw [List.map_cons, List.cons_append, List.head?_cons, next, same]

theorem reserved (h : s.Sane) (free : s.budget.used < s.budget.capacity) : s.reserved.Sane where
  ready := h.ready.reserved free
  last := h.last
  counted := by
    have := h.counted
    change s.names.length ≤ s.budget.built + (s.budget.reserved + 1)
    exact Nat.le_succ_of_le this
  addressable := h.addressable
  written := h.written
  named := h.named

theorem settled (h : s.Sane) (pending : 0 < s.budget.reserved) : s.settled.Sane where
  ready := h.ready.settled pending
  last := h.last
  counted := by
    have := h.counted
    change s.names.length ≤ s.budget.built + 1 + (s.budget.reserved - 1)
    rw [Budget.used] at this
    omega
  addressable := h.addressable
  written := h.written
  named := h.named

theorem entered (h : s.Sane) (free : s.depth < ParseM.maxNesting) : s.entered.Sane :=
  ⟨h.ready.entered free, h.last, h.counted, h.addressable, h.written, h.named⟩

theorem left (h : s.Sane) : s.left.Sane :=
  ⟨h.ready.left, h.last, h.counted, h.addressable, h.written, h.named⟩

/-- Stepping past a token keeps what holds of every state. -/
theorem passed {ts : List Terminal} (h : s.Sane) (passes : ParseM.Passes .uses s ts 0 [] 0 t)
    (last : t.lookahead.token = .eof → t.ending = .eof t.lookahead.line) : t.Sane where
  ready := passes.ready
  last := last
  counted := by
    rw [names, passes.symbols, passes.budget]
    exact h.counted
  addressable := by
    rw [passes.budget]
    exact h.addressable
  written c among := h.written c (by
    rw [passes.text]
    exact List.mem_append_right _ among)
  named x among := h.named x (by
    rw [names, passes.symbols] at among
    exact among)

/-- Binding a name keeps it, too, if there is a node for the name. -/
theorem bound {site : ParseM.Site} {name : String} {table : SymbolTable} (h : s.Sane)
    (bound : table.names = site.after s.names [name]) (written : IsName name)
    (room : s.names.length < s.budget.used) : ({ s with symbols := table } : ParseState).Sane := by
  have counted : table.names.length ≤ s.budget.used := by
    rw [bound]
    exact Nat.le_trans ParseM.Site.length_after_le room
  have numbered := Nat.le_trans counted (Nat.le_trans h.ready.room h.addressable)
  refine ⟨⟨h.ready.solid, h.ready.ended, h.ready.counted, h.ready.room, h.ready.shallow, numbered⟩,
    h.last, counted, h.addressable, h.written, ?_⟩
  intro x among
  rw [names, bound] at among
  rcases ParseM.Site.mem_after among with among | among
  · exact h.named x among
  · exact List.mem_singleton.1 among ▸ written

end Sane

end ParseState

namespace ParseM

open Future

variable {α β : Type} {F G H K : Future} {s t u : ParseState}

/-- From `s` to `t` the parse took `tokens`, and what may follow them where `F` may follow
are the texts of `G`: all of these, and no others that begin with the token ahead. -/
structure Onward (F G : Future) (s : ParseState) (tokens : List Lexeme) (t : ParseState) :
    Prop where
  ahead : s.ahead = tokens ++ t.ahead
  ending : t.ending = s.ending
  reserved : t.budget.reserved = s.budget.reserved
  names : s.names ⊆ t.names
  started : s.Sane
  sane : t.Sane
  live : Live (G t.names)
  back : ∀ v, G t.names v → F s.names (tokens.map Lexeme.terminal ++ v)
  forth : ∀ v, v.head? = some t.next → F s.names (tokens.map Lexeme.terminal ++ v) → G t.names v

/-- The parse stopped at a token that does not fit the future, or where the scanner did. -/
structure Stopped (F : Future) (s : ParseState) (e : ParseError) : Prop where
  blames : ∀ {text line}, e.blamed? = some (text, line) → Blames (F s.names) s.rest text line
  lexical : e.IsLexical → ∃ fault, s.ending = .fault fault ∧ e = .ofScan fault ∧
    Live fun v => F s.names (s.text ++ v)

/-- Started in `s`, where the texts of `F` may follow, the rule takes what they begin with,
and stops only where none of them goes on; behind it the texts of `G` may follow. -/
def Heeds (F : Future) (rule : ParseM α) (s : ParseState) (G : Future) : Prop :=
  s.Sane → Live (F s.names) →
    match rule s with
    | .ok _ t => ∃ tokens, Onward F G s tokens t
    | .error e _ => Stopped F s e

namespace Onward

variable {tokens tokens' : List Lexeme}

theorem rest (h : Onward F G s tokens t) : s.rest = tokens ++ t.rest := by
  rw [ParseState.rest, ParseState.rest, TokenStream.withEnd, TokenStream.withEnd, h.ahead, h.ending]
  cases s.ending with
  | eof line => simp
  | fault fault => rfl

theorem text (h : Onward F G s tokens t) : s.text = tokens.map Lexeme.terminal ++ t.text := by
  rw [ParseState.text, ParseState.text, h.ahead, List.map_append]

theorem length_text_le (h : Onward F G s tokens t) : t.text.length ≤ s.text.length := by
  rw [h.text, List.length_append]
  exact Nat.le_add_left ..

/-- Where some name is declared, one is later on. -/
theorem some_name (h : Onward F G s tokens t) (some_name : s.names ≠ []) : t.names ≠ [] := by
  obtain ⟨x, declared⟩ := List.exists_mem_of_ne_nil _ some_name
  exact List.ne_nil_of_mem (h.names declared)

theorem known {site : Site} (h : Onward F G s tokens t) (known : site = .uses → s.names ≠ []) :
    site = .uses → t.names ≠ [] :=
  fun uses => h.some_name (known uses)

/-- What begins like the text behind the tokens begins, with them, like the text before. -/
theorem head? (h : Onward F G s tokens t) {v : List Terminal}
    (begins : v.head? = some t.next) :
    (tokens.map Lexeme.terminal ++ v).head? = some s.next := by
  obtain ⟨tail, there⟩ := h.sane.exists_rest
  obtain ⟨v', rfl⟩ := List.head?_eq_some_iff.1 begins
  exact h.started.head?_eq (by rw [h.rest, there]) v'

theorem trans (h : Onward F G s tokens t) (h' : Onward G H t tokens' u) :
    Onward F H s (tokens ++ tokens') u where
  ahead := by rw [h.ahead, h'.ahead, List.append_assoc]
  ending := h'.ending.trans h.ending
  reserved := h'.reserved.trans h.reserved
  names := List.Subset.trans h.names h'.names
  started := h.started
  sane := h'.sane
  live := h'.live
  back v follows := by
    rw [List.map_append, List.append_assoc]
    exact h.back _ (h'.back v follows)
  forth v begins follows := by
    rw [List.map_append, List.append_assoc] at follows
    exact h'.forth v begins (h.forth _ (h'.head? begins) follows)

/-- A parse that stops later on stops for the text before, too. -/
theorem stopped {e : ParseError} (h : Onward F G s tokens t) (stopped : Stopped G t e) :
    Stopped F s e where
  blames blamed := by
    obtain ⟨before, lexeme, after, rest, text, line, ⟨v, follows, writable⟩, wrong⟩ :=
      stopped.blames blamed
    refine ⟨tokens ++ before, lexeme, after, by rw [h.rest, rest, List.append_assoc], text, line,
      ⟨v, ?_, writable⟩, ?_⟩
    · simp only [List.map_append, List.append_assoc]
      exact h.back _ follows
    · intro v follows
      rw [List.map_append, List.append_assoc] at follows
      exact wrong v (h.forth _ (h.sane.head?_eq rest v) follows)
  lexical scanning := by
    obtain ⟨fault, ending, cause, ⟨v, follows, writable⟩⟩ := stopped.lexical scanning
    refine ⟨fault, h.ending.symm.trans ending, cause, v, ?_, writable⟩
    simp only [h.text, List.append_assoc]
    exact h.back _ follows

/-- How a parse goes on behind some tokens. -/
theorem goes_on {rule : ParseM α} (h : Onward F G s tokens t) (heeds : Heeds G rule t H) :
    match rule t with
    | .ok _ u => ∃ tokens, Onward F H s tokens u
    | .error e _ => Stopped F s e := by
  have rest := heeds h.sane h.live
  cases step : rule t with
  | error e u =>
    rw [step] at rest
    exact h.stopped rest
  | ok a u =>
    rw [step] at rest
    obtain ⟨tokens', onward⟩ := rest
    exact ⟨_, h.trans onward⟩

end Onward

/-- A limit of the tree says nothing about the text. -/
theorem stopped_tree (e : TreeError) : Stopped F s (.tree e) :=
  ⟨nofun, nofun⟩

/-- The token ahead is blamed where no text that may follow begins with it. -/
theorem stopped_ahead {e : ParseError} (sane : s.Sane) (live : Live (F s.names))
    (wrong : ∀ v, v.head? = some s.next → ¬ F s.names v)
    (blamed : e.blamed? = some (s.lookahead.text, s.lookahead.line)) : Stopped F s e where
  blames {text line} named := by
    obtain ⟨tail, here⟩ := sane.exists_rest
    obtain ⟨rfl, rfl⟩ := Prod.mk.inj (Option.some.inj (blamed.symm.trans named))
    exact ⟨[], s.lookahead, tail, here, rfl, rfl, live, fun v => wrong _ rfl⟩
  lexical scanning := by
    rw [ParseError.blamed?_of_isLexical scanning] at blamed
    cases blamed

namespace Heeds

/-! ### Putting rules together -/

theorem pure (a : α) : Heeds F (Pure.pure a) s F :=
  fun sane live => ⟨[], rfl, rfl, rfl, List.Subset.refl _, sane, sane, live, fun _ h => h,
    fun _ _ h => h⟩

theorem bind {x : ParseM α} {f : α → ParseM β} (first : Heeds F x s G)
    (next : ∀ {a t tokens}, x s = .ok a t → Onward F G s tokens t → Heeds G (f a) t H) :
    Heeds F (x >>= f) s H := by
  intro sane live
  have h := first sane live
  simp only [Bind.bind, EStateM.bind]
  cases step : x s with
  | error e t =>
    rw [step] at h
    exact h
  | ok a t =>
    rw [step] at h
    obtain ⟨tokens, onward⟩ := h
    exact onward.goes_on (next step onward)

/-- The future may be narrowed to the texts that begin with the token ahead. -/
theorem narrow {rule : ParseM α} (part : ∀ v, G s.names v → F s.names v)
    (all : ∀ v, v.head? = some s.next → F s.names v → G s.names v)
    (alive : s.Sane → Live (G s.names)) (h : Heeds G rule s H) : Heeds F rule s H := by
  intro sane _
  have onward : Onward F G s [] s :=
    ⟨rfl, rfl, rfl, List.Subset.refl _, sane, sane, alive sane, part, all⟩
  exact onward.goes_on h

theorem peek {f : Token → ParseM α}
    (h : ∀ token, s.lookahead.token = token → Heeds F (f token) s G) :
    Heeds F (ParseM.peek >>= f) s G :=
  h _ rfl

theorem peekLine {f : Nat → ParseM α} (h : Heeds F (f s.lookahead.line) s G) :
    Heeds F (ParseM.peekLine >>= f) s G := h

theorem tooDeep : Heeds F (ParseM.tooDeep : ParseM α) s G :=
  fun _ _ => stopped_tree _

section Ahead

variable {token : Token}

/-- One of two futures is left where the token ahead begins no text of the other. -/
theorem left {rule : ParseM α} (some_name : s.names ≠ []) (ahead : s.lookahead.token = token)
    (misses : G.Misses token.terminal) (alive : Alive F) (h : Heeds F rule s H) :
    Heeds (either F G) rule s H := by
  refine narrow (fun _ => .inl) ?_ (fun sane => alive _ (sane.proper some_name)) h
  rintro v begins (follows | follows)
  · exact follows
  · obtain ⟨v, rfl⟩ := List.head?_eq_some_iff.1 begins
    subst ahead
    exact absurd follows (misses _ _)

theorem right {rule : ParseM α} (some_name : s.names ≠ []) (ahead : s.lookahead.token = token)
    (misses : F.Misses token.terminal) (alive : Alive G) (h : Heeds G rule s H) :
    Heeds (either F G) rule s H := by
  refine narrow (fun _ => .inr) ?_ (fun sane => alive _ (sane.proper some_name)) h
  rintro v begins (follows | follows)
  · obtain ⟨v, rfl⟩ := List.head?_eq_some_iff.1 begins
    subst ahead
    exact absurd follows (misses _ _)
  · exact follows

theorem unexpected {expected : Expected} (ahead : s.lookahead.token = token)
    (misses : F.Misses token.terminal) :
    Heeds F (ParseM.unexpected expected : ParseM α) s G := by
  intro sane live
  refine stopped_ahead sane live ?_ rfl
  intro v begins follows
  obtain ⟨v, rfl⟩ := List.head?_eq_some_iff.1 begins
  subst ahead
  exact misses _ _ follows

end Ahead

theorem node {rule : ParseM α} (h : s.Sane → Heeds F rule s.reserved G) :
    Heeds F (ParseM.node rule) s G := by
  intro sane live
  by_cases free : s.budget.used < s.budget.capacity
  · have reserving : ParseM.reserve s = .ok () s.reserved := by
      simp [ParseM.reserve, Budget.reserve?, free, ParseState.reserved]
    have inner := h sane (sane.reserved free) live
    simp only [ParseM.node, Bind.bind, EStateM.bind, reserving]
    cases step : rule s.reserved with
    | error e t =>
      simp only [step] at inner
      exact ⟨inner.blames, inner.lexical⟩
    | ok a t =>
      simp only [step] at inner
      obtain ⟨tokens, onward⟩ := inner
      have pending : t.budget.reserved = s.budget.reserved + 1 := onward.reserved
      refine ⟨tokens, onward.ahead, onward.ending, ?_, onward.names, sane,
        onward.sane.settled (by omega), onward.live, onward.back, onward.forth⟩
      simp only [Budget.settle, pending, Nat.add_sub_cancel]
  · have full : ParseM.reserve s = .error (.tree (.capacityExceeded s.budget.capacity)) s := by
      simp [ParseM.reserve, Budget.reserve?, free]
    simp only [ParseM.node, Bind.bind, EStateM.bind, full]
    exact stopped_tree _

theorem nested {rule : ParseM α} (h : Heeds F rule s.entered G) :
    Heeds F (ParseM.nested rule) s G := by
  intro sane live
  by_cases free : s.depth < maxNesting
  · have entering : ParseM.enter s = .ok () s.entered := by
      simp [ParseM.enter, free, ParseState.entered]
    have inner := h (sane.entered free) live
    simp only [ParseM.nested, Bind.bind, EStateM.bind, entering]
    cases step : rule s.entered with
    | error e t =>
      simp only [step] at inner
      exact ⟨inner.blames, inner.lexical⟩
    | ok a t =>
      simp only [step] at inner
      obtain ⟨tokens, onward⟩ := inner
      exact ⟨tokens, onward.ahead, onward.ending, onward.reserved, onward.names, sane,
        onward.sane.left, onward.live, onward.back, onward.forth⟩
  · have deep : ParseM.enter s = .error (.tree (.nestingTooDeep maxNesting)) s := by
      simp [ParseM.enter, free, ParseM.tooDeep]
    simp only [ParseM.nested, Bind.bind, EStateM.bind, deep]
    exact stopped_tree _

/-- A rule may repeat itself as often as there are tokens ahead. -/
theorem repeating {rule : Nat → ParseM α}
    (h : ∀ n, s.text.length ≤ n → Heeds F (rule n) s G) : Heeds F (ParseM.repeating rule) s G := by
  intro sane
  exact h s.tokenCount (by simpa [ParseState.text] using sane.ready.counted) sane

/-! ### Tokens -/

/-- Behind the token ahead comes the next one, or the fault that the text stops at. -/
theorem advance_cases (ready : s.Ready) (more : s.lookahead.token ≠ .eof) :
    (∃ t, ParseM.advance s = .ok () t ∧ s.ahead = s.lookahead :: t.ahead ∧
        (t.lookahead.token = .eof → t.ending = .eof t.lookahead.line)) ∨
      ∃ fault, ParseM.advance s = .error (.ofScan fault) s ∧ s.ending = .fault fault ∧
        s.ahead = [s.lookahead] := by
  cases upcoming : s.upcoming with
  | cons next others =>
    have solid : next.token ≠ .eof := ready.solid next (by simp [upcoming])
    left
    exact ⟨{ s with lookahead := next, upcoming := others }, by
      simp [ParseM.advance, more, upcoming], by simp [ParseState.ahead, more, upcoming, solid],
      fun ended => absurd ended solid⟩
  | nil =>
    cases ending : s.ending with
    | eof line =>
      left
      exact ⟨{ s with lookahead := { token := .eof, line := line } }, by
        simp [ParseM.advance, more, upcoming, ending], by simp [ParseState.ahead, more, upcoming],
        fun _ => ending⟩
    | fault fault =>
      right
      exact ⟨fault, by simp [ParseM.advance, more, upcoming, ending], rfl, by
        simp [ParseState.ahead, more, upcoming]⟩

/-- Stepping past a token that every text that may follow begins with. -/
theorem advance {token : Token} (ahead : s.lookahead.token = token) (more : token ≠ .eof) :
    Heeds (tok token.terminal K) ParseM.advance s K := by
  intro sane live
  subst ahead
  obtain ⟨_, ⟨v, rfl, follows⟩, writable⟩ := live
  have live : Live (K s.names) := ⟨v, follows, fun t among => writable t (.tail _ among)⟩
  rcases advance_cases sane.ready more with ⟨t, step, ahead, last⟩ | ⟨fault, step, ending, ahead⟩
  · have passes := advance_passes .uses sane.ready more step
    have names : t.names = s.names := passes.symbols
    rw [step]
    refine ⟨[s.lookahead], ahead, passes.ending, ?_, ?_, sane, sane.passed passes last, ?_, ?_, ?_⟩
    · rw [passes.budget]
    · rw [names]
      exact List.Subset.refl _
    · rwa [names]
    · intro v follows
      exact ⟨v, rfl, names ▸ follows⟩
    · rintro v - ⟨_, same, follows⟩
      cases same
      rwa [names]
  · rw [step]
    refine ⟨?_, fun _ => ⟨fault, ending, rfl, v, ?_, fun t among => writable t (.tail _ among)⟩⟩
    · rw [ParseError.blamed?_ofScan]
      exact nofun
    · rw [ParseState.text, ahead]
      exact ⟨v, rfl, follows⟩

/-- Stepping past a phrase of one token without a name. -/
theorem leaf {tag : Tag} {token : Token} (ahead : s.lookahead.token = token) (more : token ≠ .eof)
    (some_name : s.names ≠ []) (alive : Alive K)
    (single : ∀ d : Derivation Unit String tag, ∃ t, d.yield = [t] ∧ d.vars = [])
    {d : Derivation Unit String tag} (yield : d.yield = [token.terminal]) :
    Heeds (phrase .uses tag K) ParseM.advance s K := by
  subst ahead
  refine narrow (G := tok s.lookahead.token.terminal K) ?_ ?_ ?_ (advance rfl more)
  · rintro v ⟨v, rfl, follows⟩
    obtain ⟨-, -, bare⟩ := single d
    exact ⟨d, v, by simp [bare, Site.Allows], follows, by rw [yield]; rfl⟩
  · rintro _ begins ⟨d', v, -, follows, rfl⟩
    obtain ⟨t, yield', -⟩ := single d'
    rw [yield', List.singleton_append, List.head?_cons, Option.some_inj] at begins
    exact ⟨v, by rw [yield', begins]; rfl, follows⟩
  · intro sane
    exact Alive.tok (sane.written_ahead more) alive _ (sane.proper some_name)

theorem expect (token : Token) {expected : Expected} (solid : token ≠ .eof)
    (known : ∀ token', token'.terminal = token.terminal → token' = token) :
    Heeds (tok token.terminal K) (ParseM.expect token expected) s K := by
  refine peek fun token' ahead => ?_
  split
  · next same => exact same ▸ advance ahead (same ▸ solid)
  · next other =>
    refine unexpected ahead (.tok ?_)
    intro same
    exact other (known _ same.symm)

theorem expectKeyword {word : Keyword} {expected : Expected} :
    Heeds (tok (.keyword word) K) (ParseM.expect (.keyword word) expected) s K :=
  expect (.keyword word) nofun fun _ => Token.terminal_eq_keyword_iff.1

theorem expectMark {sign : Mark} {expected : Expected} :
    Heeds (tok (.mark sign) K) (ParseM.expect (.mark sign) expected) s K :=
  expect (.mark sign) nofun fun _ => Token.terminal_eq_mark_iff.1

/-- Nothing but the end of the text may follow a program. -/
theorem nothingMore : Heeds done ParseM.nothingMore s done := by
  intro sane live
  by_cases ended : s.lookahead.token = .eof
  · rw [ParseM.nothingMore, if_pos ended]
    exact pure () sane live
  · rw [ParseM.nothingMore, if_neg ended]
    refine stopped_ahead sane live ?_ rfl
    rintro _ begins rfl
    have eof : s.lookahead.token.terminal = .eof := (Option.some.inj begins).symm
    exact ended (Token.terminal_eq_eof_iff.1 eof)

/-! ### Names -/

/-- A name is bound if it may stand there, and is blamed if not. -/
theorem bindName_cases (site : Site) (name : String) (room : s.names.length < Symbol.limit) :
    (site.Allows s.names [name] ∧ ∃ symbol table,
        ParseM.bindName site name s = .ok symbol { s with symbols := table } ∧
          table.names = site.after s.names [name]) ∨
      (¬ site.Allows s.names [name] ∧ ∃ e, ParseM.bindName site name s = .error e s ∧
        e.blamed? = some (name, s.lookahead.line)) := by
  cases site with
  | uses =>
    by_cases declared : name ∈ s.names
    · left
      refine ⟨by simpa [Site.Allows] using declared, s.symbols.index name, s.symbols, ?_, rfl⟩
      simp [ParseM.bindName, SymbolTable.resolve?_eq_some_index declared]
    · right
      refine ⟨by simpa [Site.Allows] using declared, .undeclaredVariable name s.lookahead.line, ?_, rfl⟩
      simp [ParseM.bindName, SymbolTable.resolve?_eq_none_iff.2 declared]
  | declares =>
    by_cases declared : name ∈ s.names
    · right
      refine ⟨?_, .duplicateVariable name s.lookahead.line, ?_, rfl⟩
      · intro distinct
        exact (List.nodup_append.1 distinct).2.2 name declared name List.mem_cons_self rfl
      · simp [ParseM.bindName, SymbolTable.declare?_of_mem declared]
    · left
      obtain ⟨table, added, names⟩ := SymbolTable.exists_declare? declared room
      refine ⟨?_, ⟨s.names.length⟩, table, by simp only [ParseM.bindName, added], names⟩
      have distinct := table.distinct
      rwa [names] at distinct

/-- Behind a name that is bound the rest may follow, and it may follow no other one. -/
theorem phrase_ident_iff {site : Site} {names : List String} {name : String} {v : List Terminal} :
    phrase site .ident K names (.identifier name :: v) ↔
      site.Allows names [name] ∧ K (site.after names [name]) v := by
  constructor
  · rintro ⟨d, v, allowed, follows, same⟩
    cases d with
    | ident _ x =>
      obtain ⟨same, rfl⟩ := List.cons.inj same
      cases same
      exact ⟨allowed, follows⟩
  · rintro ⟨allowed, follows⟩
    exact ⟨.ident () name, v, allowed, follows, rfl⟩

/-- A name that is ahead is bound where some text that may follow begins with it. -/
theorem bindName {site : Site} {name : String} (ahead : s.lookahead.token = .identifier name)
    (room : s.names.length < s.budget.used) (alive : Alive K) :
    Heeds (phrase site .ident K) (ParseM.bindName site name) s (tok (.identifier name) K) := by
  intro sane live
  have next : s.next = .identifier name := congrArg Token.terminal ahead
  -- every name has a node, so the symbols last as long as the nodes do
  have numbered : s.names.length < Symbol.limit :=
    Nat.lt_of_lt_of_le room (Nat.le_trans sane.ready.room sane.addressable)
  rcases bindName_cases site name numbered with
    ⟨allowed, symbol, table, bound, names⟩ | ⟨refused, e, bound, blamed⟩
  · have written : Terminal.Written (.identifier name) := by
      simpa [ahead, Token.terminal] using sane.written_ahead (by simp [ahead])
    have sane' := sane.bound names written room
    rw [bound]
    refine ⟨[], rfl, rfl, rfl, ?_, sane, sane', ?_, ?_, ?_⟩
    · change s.names ⊆ table.names
      rw [names]
      exact Site.subset_after
    · refine Alive.tok written alive _ (sane'.proper ?_)
      exact List.ne_nil_of_mem (names ▸ allowed.mem_after List.mem_cons_self)
    · rintro v ⟨v, rfl, follows⟩
      rw [ParseState.names, names] at follows
      exact phrase_ident_iff.2 ⟨allowed, follows⟩
    · intro v begins follows
      obtain ⟨v, rfl⟩ := List.head?_eq_some_iff.1 begins
      have same : ({ s with symbols := table } : ParseState).next = .identifier name := next
      rw [same, List.map_nil, List.nil_append] at follows
      refine ⟨v, by rw [same], ?_⟩
      rw [ParseState.names, names]
      exact (phrase_ident_iff.1 follows).2
  · rw [bound]
    refine stopped_ahead sane live ?_ ?_
    · intro v begins follows
      obtain ⟨v, rfl⟩ := List.head?_eq_some_iff.1 begins
      rw [next] at follows
      exact refused (phrase_ident_iff.1 follows).1
    · rw [blamed, Lexeme.text, ahead, Token.text]

end Heeds

end ParseM

end CoreLang
