import Mathlib.Data.List.Nodup
import CoreLang.Proofs.ParseCompleteness
import CoreLang.Proofs.Scanning

/-!
# What may follow

While a text is read, the grammar and the names declared so far tell how it may go on: a
`Future` is the set of these texts, the end of the text included. Futures are put together
from tokens and from phrases, that is from derivations of a tag with names in order, and
what is left of a phrase behind its first part is again such a future. One equation for
each nonterminal says so.

A future is `Alive` if some text that can be written belongs to it, whatever the declared
names are.
-/

namespace CoreLang

namespace ParseM.Site

/-- The names of a place are in order: known where they are used, and all new where they
are declared. -/
def Allows : Site → List String → List String → Prop
  | .uses, declared, names => ∀ x ∈ names, x ∈ declared
  | .declares, declared, names => (declared ++ names).Nodup

theorem allows_append {site : Site} {declared xs ys : List String} :
    site.Allows declared (xs ++ ys) ↔
      site.Allows declared xs ∧ site.Allows (site.after declared xs) ys := by
  cases site with
  | uses => simp only [Allows, after, List.mem_append, or_imp, forall_and]
  | declares =>
    simp only [Allows, after, ← List.append_assoc]
    exact ⟨fun h => ⟨h.sublist (List.sublist_append_left ..), h⟩, And.right⟩

section

variable {site : Site} {declared names : List String} {x : String}

theorem subset_after : declared ⊆ site.after declared names := by
  cases site with
  | uses => exact List.Subset.refl _
  | declares => exact List.subset_append_left ..

theorem mem_after (h : x ∈ site.after declared names) : x ∈ declared ∨ x ∈ names := by
  cases site with
  | uses => exact .inl h
  | declares => exact List.mem_append.1 h

theorem length_after_le : (site.after declared names).length ≤ declared.length + names.length := by
  cases site with
  | uses => exact Nat.le_add_right ..
  | declares => exact Nat.le_of_eq List.length_append

/-- Behind a place its names are known. -/
theorem Allows.mem_after (h : site.Allows declared names) (among : x ∈ names) :
    x ∈ site.after declared names := by
  cases site with
  | uses => exact h x among
  | declares => exact List.mem_append_right _ among

end

end ParseM.Site

open ParseM (Site)

/-- The tokens that a derivation from the tag begins with. -/
def Tag.opens (tag : Tag) (t : Terminal) : Bool :=
  match tag with
  | .program => t = .keyword .programWord
  | .declSeq | .decl => t = .keyword .intWord
  | .idList | .assign | .ident => (t matches .identifier _)
  | .stmtSeq | .stmt => Tag.stmtSeq.goesOn t
  | .ifStmt => t = .keyword .ifWord
  | .whileStmt => t = .keyword .whileWord
  | .input => t = .keyword .readWord
  | .output => t = .keyword .writeWord
  | .cond => (t matches .mark .bang | .mark .openBracket | .mark .openParen)
  | .comparison => t = .mark .openParen
  | .expr | .term | .operand => (t matches .integer _ | .identifier _ | .mark .openParen)
  | .compOp => (t matches .mark .notEqual | .mark .equal | .mark .less | .mark .greater |
      .mark .lessEqual | .mark .greaterEqual)
  | .int => (t matches .integer _)

/-- The kinds of statements. -/
def Tag.statements : List Tag := [.assign, .ifStmt, .whileStmt, .input, .output]

theorem Derivation.exists_yield {tag : Tag} (d : Derivation Unit String tag) :
    ∃ t tail, d.yield = t :: tail ∧ tag.opens t = true := by
  induction d with
  | program | decl | ifThen | ifElse | whileLoop | input | output | condNot | condAnd | condOr
  | comparison | operandParen | int | ident => exact ⟨_, _, rfl, rfl⟩
  | compOp _ op => cases op <;> exact ⟨_, _, rfl, rfl⟩
  | declSeqLast _ _ ih | idListLast _ _ ih | stmtSeqLast _ _ ih | exprTerm _ _ ih
  | termOperand _ _ ih => exact ih
  | stmtIf _ _ ih | stmtWhile _ _ ih | stmtInput _ _ ih | stmtOutput _ _ ih | condCompare _ _ ih =>
    obtain ⟨t, tail, yield, opens⟩ := ih
    obtain rfl := of_decide_eq_true opens
    exact ⟨_, tail, yield, rfl⟩
  | operandInt _ leaf =>
    cases leaf
    exact ⟨_, _, rfl, rfl⟩
  | operandIdent _ leaf =>
    cases leaf
    exact ⟨_, _, rfl, rfl⟩
  | stmtAssign _ inner =>
    cases inner with
    | assign _ target value =>
      cases target
      exact ⟨_, _, rfl, rfl⟩
  | declSeqCons _ _ _ ih | idListCons _ _ _ ih | stmtSeqCons _ _ _ ih | assign _ _ _ ih
  | exprAdd _ _ _ ih | exprSub _ _ _ ih | termMul _ _ _ ih =>
    obtain ⟨t, tail, yield, opens⟩ := ih
    exact ⟨t, _, by rw [Derivation.yield, yield]; rfl, opens⟩

section Names

variable {α ι : Type}

theorem Derivation.vars_ident_ne_nil (d : Derivation α ι .ident) : d.vars ≠ [] := by
  cases d with
  | ident _ x => exact List.cons_ne_nil x []

theorem Derivation.vars_decl_ne_nil (d : Derivation α ι .decl) : d.vars ≠ [] := by
  cases d with
  | decl _ ids =>
    cases ids with
    | idListLast _ id => exact id.vars_ident_ne_nil
    | idListCons _ id rest => exact List.append_ne_nil_of_left_ne_nil id.vars_ident_ne_nil _

theorem Derivation.vars_declSeq_ne_nil (d : Derivation α ι .declSeq) : d.vars ≠ [] := by
  cases d with
  | declSeqLast _ first => exact first.vars_decl_ne_nil
  | declSeqCons _ first rest => exact List.append_ne_nil_of_left_ne_nil first.vars_decl_ne_nil _

end Names

/-- The texts that may follow, by the names that are declared. -/
abbrev Future := List String → List Terminal → Prop

namespace Future

/-- The token, and then what may follow it. -/
def tok (t : Terminal) (K : Future) : Future := fun names u =>
  ∃ v, u = t :: v ∧ K names v

/-- A derivation from the tag, and then what may follow it. -/
def phrase (site : Site) (tag : Tag) (K : Future) : Future := fun names u =>
  ∃ (d : Derivation Unit String tag) (v : List Terminal),
    site.Allows names d.vars ∧ K (site.after names d.vars) v ∧ u = d.yield ++ v

/-- One or the other. -/
def either (F G : Future) : Future := fun names u =>
  F names u ∨ G names u

/-- The end of the text. -/
def done : Future := fun _ u => u = [.eof]

/-! ### What a text begins with -/

/-- No text that may follow begins with the token. -/
def Misses (F : Future) (t : Terminal) : Prop :=
  ∀ names u, ¬ F names (t :: u)

namespace Misses

variable {F G K : Future} {t : Terminal}

theorem tok {c : Terminal} (other : c ≠ t) : Misses (tok c K) t := by
  rintro names u ⟨v, same, -⟩
  exact other (List.cons.inj same).1.symm

theorem keyword {token : Token} {word : Keyword} (other : token ≠ .keyword word) :
    Misses (Future.tok (.keyword word) K) token.terminal :=
  tok fun same => other (Token.terminal_eq_keyword_iff.1 same.symm)

theorem mark {token : Token} {sign : Mark} (other : token ≠ .mark sign) :
    Misses (Future.tok (.mark sign) K) token.terminal :=
  tok fun same => other (Token.terminal_eq_mark_iff.1 same.symm)

theorem either (left : F.Misses t) (right : G.Misses t) : Misses (either F G) t := by
  rintro names u (h | h)
  · exact left names u h
  · exact right names u h

theorem phrase {site : Site} {tag : Tag} (closed : tag.opens t = false) :
    Misses (phrase site tag K) t := by
  rintro names u ⟨d, v, -, -, same⟩
  obtain ⟨t', tail, yield, opens⟩ := d.exists_yield
  rw [yield, List.cons_append] at same
  obtain ⟨rfl, -⟩ := List.cons.inj same
  rw [closed] at opens
  cases opens

end Misses

/-- What may follow does not go on with a derivation from the tag. -/
def EndsAt (tag : Tag) (K : Future) : Prop :=
  ∀ ⦃t⦄, tag.goesOn t = true → K.Misses t

namespace EndsAt

variable {tag : Tag} {F G K : Future}

theorem tok {c : Terminal} (ends : tag.goesOn c = false) : EndsAt tag (tok c K) := by
  intro t more
  refine Misses.tok ?_
  rintro rfl
  rw [ends] at more
  cases more

theorem either (left : EndsAt tag F) (right : EndsAt tag G) : EndsAt tag (either F G) :=
  fun _ more => .either (left more) (right more)

/-- Where nothing goes on with the tag, it ends anywhere. -/
theorem of_not (never : ∀ t, tag.goesOn t = false) : EndsAt tag K := by
  intro t more
  rw [never] at more
  cases more

/-- Where a sum ends, its last term does. -/
theorem term (h : EndsAt .expr K) : EndsAt .term K := by
  intro t more
  refine h ?_
  cases t with
  | mark sign => cases sign <;> simp_all [Tag.goesOn]
  | _ => cases more

end EndsAt

/-! ### Productions

What is left of a phrase behind its first part. Where a list, a sum or a block can go on,
what follows it may come right away or behind more of it. -/

section Productions

variable {site : Site} {K : Future}

theorem eq_of_iff {F G : Future} (same : ∀ names u, F names u ↔ G names u) : F = G := by
  funext names u
  exact propext (same names u)

/-- Several tokens, and then what may follow them. -/
theorem foldr_tok_iff {ts : List Terminal} {names : List String} {u : List Terminal} :
    ts.foldr tok K names u ↔ ∃ v, u = ts ++ v ∧ K names v := by
  induction ts generalizing u with
  | nil => simp
  | cons t ts ih =>
    constructor
    · rintro ⟨v, rfl, more⟩
      obtain ⟨v, rfl, follows⟩ := ih.1 more
      exact ⟨v, rfl, follows⟩
    · rintro ⟨v, rfl, follows⟩
      exact ⟨ts ++ v, rfl, ih.2 ⟨v, rfl, follows⟩⟩

/-- A derivation from the tag is one from `first`, or one followed by `separator` and by a
derivation from the tag again. -/
structure Chains (tag first : Tag) (separator : List Terminal) : Prop where
  last : ∀ a : Derivation Unit String first, ∃ d : Derivation Unit String tag,
    d.yield = a.yield ∧ d.vars = a.vars
  cons : ∀ (a : Derivation Unit String first) (rest : Derivation Unit String tag),
    ∃ d : Derivation Unit String tag,
      d.yield = a.yield ++ separator ++ rest.yield ∧ d.vars = a.vars ++ rest.vars
  split : ∀ d : Derivation Unit String tag,
    (∃ a : Derivation Unit String first, d.yield = a.yield ∧ d.vars = a.vars) ∨
      ∃ (a : Derivation Unit String first) (rest : Derivation Unit String tag),
        d.yield = a.yield ++ separator ++ rest.yield ∧ d.vars = a.vars ++ rest.vars

theorem Chains.phrase_eq {tag first : Tag} {separator : List Terminal}
    (h : Chains tag first separator) : phrase site tag K =
      phrase site first (either K (separator.foldr tok (phrase site tag K))) := by
  refine eq_of_iff fun names u => ⟨?_, ?_⟩
  · rintro ⟨d, v, allowed, follows, rfl⟩
    rcases h.split d with ⟨a, yield, vars⟩ | ⟨a, rest, yield, vars⟩
    · rw [vars] at allowed follows
      exact ⟨a, v, allowed, .inl follows, by rw [yield]⟩
    · rw [vars] at allowed follows
      obtain ⟨front, others⟩ := Site.allows_append.1 allowed
      rw [Site.after_append] at follows
      refine ⟨a, separator ++ (rest.yield ++ v), front, .inr (foldr_tok_iff.2 ⟨_, rfl, ?_⟩), ?_⟩
      · exact ⟨rest, v, others, follows, rfl⟩
      · rw [yield, List.append_assoc, List.append_assoc]
  · rintro ⟨a, v, front, follows | more, rfl⟩
    · obtain ⟨d, yield, vars⟩ := h.last a
      exact ⟨d, v, vars ▸ front, vars ▸ follows, by rw [yield]⟩
    · obtain ⟨_, rfl, rest, v, others, follows, rfl⟩ := foldr_tok_iff.1 more
      obtain ⟨d, yield, vars⟩ := h.cons a rest
      refine ⟨d, v, vars ▸ Site.allows_append.2 ⟨front, others⟩, ?_, ?_⟩
      · rwa [vars, Site.after_append]
      · rw [yield, List.append_assoc, List.append_assoc]

theorem phrase_idList : phrase site .idList K =
    phrase site .ident (either K (tok (.mark .comma) (phrase site .idList K))) := by
  have chains : Chains .idList .ident [.mark .comma] :=
    ⟨fun a => ⟨.idListLast () a, rfl, rfl⟩, fun a rest => ⟨.idListCons () a rest, rfl, rfl⟩, fun
      | .idListLast _ a => .inl ⟨a, rfl, rfl⟩
      | .idListCons _ a rest => .inr ⟨a, rest, rfl, rfl⟩⟩
  exact chains.phrase_eq

theorem phrase_declSeq : phrase site .declSeq K =
    phrase site .decl (either K (phrase site .declSeq K)) := by
  have chains : Chains .declSeq .decl [] :=
    ⟨fun a => ⟨.declSeqLast () a, rfl, rfl⟩, fun a rest => ⟨.declSeqCons () a rest, by simp, rfl⟩, fun
      | .declSeqLast _ a => .inl ⟨a, rfl, rfl⟩
      | .declSeqCons _ a rest => .inr ⟨a, rest, by simp, rfl⟩⟩
  exact chains.phrase_eq

theorem phrase_term : phrase site .term K =
    phrase site .operand (either K (tok (.mark .star) (phrase site .term K))) := by
  have chains : Chains .term .operand [.mark .star] :=
    ⟨fun a => ⟨.termOperand () a, rfl, rfl⟩, fun a rest => ⟨.termMul () a rest, rfl, rfl⟩, fun
      | .termOperand _ a => .inl ⟨a, rfl, rfl⟩
      | .termMul _ a rest => .inr ⟨a, rest, rfl, rfl⟩⟩
  exact chains.phrase_eq

theorem phrase_stmtSeq : phrase site .stmtSeq K =
    phrase site .stmt (either K (phrase site .stmtSeq K)) := by
  have chains : Chains .stmtSeq .stmt [] :=
    ⟨fun a => ⟨.stmtSeqLast () a, rfl, rfl⟩, fun a rest => ⟨.stmtSeqCons () a rest, by simp, rfl⟩, fun
      | .stmtSeqLast _ a => .inl ⟨a, rfl, rfl⟩
      | .stmtSeqCons _ a rest => .inr ⟨a, rest, by simp, rfl⟩⟩
  exact chains.phrase_eq

/-- A keyword, a list of names and a semicolon. -/
theorem phrase_eq_listed {tag : Tag} {word : Keyword}
    (wrap : Derivation Unit String .idList → Derivation Unit String tag)
    (yield : ∀ ids, (wrap ids).yield = [.keyword word] ++ ids.yield ++ [.mark .semicolon])
    (vars : ∀ ids, (wrap ids).vars = ids.vars) (only : ∀ d, ∃ ids, d = wrap ids) :
    phrase site tag K =
      tok (.keyword word) (phrase site .idList (tok (.mark .semicolon) K)) := by
  refine eq_of_iff fun names u => ⟨?_, ?_⟩
  · rintro ⟨d, v, allowed, follows, rfl⟩
    obtain ⟨ids, rfl⟩ := only d
    rw [vars] at allowed follows
    exact ⟨ids.yield ++ .mark .semicolon :: v, by simp [yield], ids, _, allowed,
      ⟨v, rfl, follows⟩, rfl⟩
  · rintro ⟨_, rfl, ids, _, allowed, ⟨v, rfl, follows⟩, rfl⟩
    exact ⟨wrap ids, v, vars ids ▸ allowed, vars ids ▸ follows, by simp [yield]⟩

theorem phrase_decl : phrase site .decl K =
    tok (.keyword .intWord) (phrase site .idList (tok (.mark .semicolon) K)) :=
  phrase_eq_listed (.decl ()) (fun _ => rfl) (fun _ => rfl) fun | .decl _ ids => ⟨ids, rfl⟩

theorem phrase_input : phrase site .input K =
    tok (.keyword .readWord) (phrase site .idList (tok (.mark .semicolon) K)) :=
  phrase_eq_listed (.input ()) (fun _ => rfl) (fun _ => rfl) fun | .input _ ids => ⟨ids, rfl⟩

theorem phrase_output : phrase site .output K =
    tok (.keyword .writeWord) (phrase site .idList (tok (.mark .semicolon) K)) :=
  phrase_eq_listed (.output ()) (fun _ => rfl) (fun _ => rfl) fun | .output _ ids => ⟨ids, rfl⟩

theorem phrase_operand : phrase .uses .operand K =
    either (phrase .uses .int K) (either (phrase .uses .ident K)
      (tok (.mark .openParen) (phrase .uses .expr (tok (.mark .closeParen) K)))) := by
  refine eq_of_iff fun names u => ⟨?_, ?_⟩
  · rintro ⟨d, v, allowed, follows, rfl⟩
    cases d with
    | operandInt _ leaf => exact .inl ⟨leaf, v, allowed, follows, rfl⟩
    | operandIdent _ leaf => exact .inr (.inl ⟨leaf, v, allowed, follows, rfl⟩)
    | operandParen _ e =>
      exact .inr (.inr ⟨_, rfl, e, _, allowed, ⟨v, rfl, follows⟩, by simp⟩)
  · rintro (⟨leaf, v, allowed, follows, rfl⟩ | ⟨leaf, v, allowed, follows, rfl⟩ |
      ⟨_, rfl, e, _, allowed, ⟨v, rfl, follows⟩, rfl⟩)
    · exact ⟨.operandInt () leaf, v, allowed, follows, rfl⟩
    · exact ⟨.operandIdent () leaf, v, allowed, follows, rfl⟩
    · exact ⟨.operandParen () e, v, allowed, follows, by simp⟩

theorem phrase_expr : phrase .uses .expr K =
    phrase .uses .term (either K (either (tok (.mark .plus) (phrase .uses .expr K))
      (tok (.mark .minus) (phrase .uses .expr K)))) := by
  refine eq_of_iff fun names u => ⟨?_, ?_⟩
  · rintro ⟨d, v, allowed, follows, rfl⟩
    cases d with
    | exprTerm _ t => exact ⟨t, v, allowed, .inl follows, rfl⟩
    | exprAdd _ t rest =>
      obtain ⟨first, others⟩ := Site.allows_append.1 allowed
      exact ⟨t, _, first, .inr (.inl ⟨_, rfl, rest, v, others, follows, rfl⟩), by simp⟩
    | exprSub _ t rest =>
      obtain ⟨first, others⟩ := Site.allows_append.1 allowed
      exact ⟨t, _, first, .inr (.inr ⟨_, rfl, rest, v, others, follows, rfl⟩), by simp⟩
  · rintro ⟨t, v, first, follows | ⟨_, rfl, rest, v, others, follows, rfl⟩ |
      ⟨_, rfl, rest, v, others, follows, rfl⟩, rfl⟩
    · exact ⟨.exprTerm () t, v, first, follows, rfl⟩
    · exact ⟨.exprAdd () t rest, v, Site.allows_append.2 ⟨first, others⟩, follows, by simp⟩
    · exact ⟨.exprSub () t rest, v, Site.allows_append.2 ⟨first, others⟩, follows, by simp⟩

theorem phrase_comparison : phrase .uses .comparison K =
    tok (.mark .openParen) (phrase .uses .operand (phrase .uses .compOp
      (phrase .uses .operand (tok (.mark .closeParen) K)))) := by
  refine eq_of_iff fun names u => ⟨?_, ?_⟩
  · rintro ⟨d, v, allowed, follows, rfl⟩
    cases d with
    | comparison _ left op right =>
      obtain ⟨front, last⟩ := Site.allows_append.1 allowed
      obtain ⟨first, second⟩ := Site.allows_append.1 front
      exact ⟨_, rfl, left, _, first, ⟨op, _, second, ⟨right, _, last, ⟨v, rfl, follows⟩, rfl⟩, rfl⟩,
        by simp⟩
  · rintro ⟨_, rfl, left, _, first, ⟨op, _, second, ⟨right, _, last, ⟨v, rfl, follows⟩, rfl⟩, rfl⟩,
      rfl⟩
    exact ⟨.comparison () left op right, v,
      Site.allows_append.2 ⟨Site.allows_append.2 ⟨first, second⟩, last⟩, follows, by simp⟩

/-- What follows the left side of a condition in brackets. -/
def rightSide (K : Future) : Future :=
  phrase .uses .cond (tok (.mark .closeBracket) K)

theorem phrase_cond : phrase .uses .cond K =
    either (phrase .uses .comparison K) (either (tok (.mark .bang) (phrase .uses .cond K))
      (tok (.mark .openBracket) (phrase .uses .cond
        (either (tok (.mark .andAnd) (rightSide K)) (tok (.mark .orOr) (rightSide K)))))) := by
  refine eq_of_iff fun names u => ⟨?_, ?_⟩
  · rintro ⟨d, v, allowed, follows, rfl⟩
    cases d with
    | condCompare _ c => exact .inl ⟨c, v, allowed, follows, rfl⟩
    | condNot _ c => exact .inr (.inl ⟨_, rfl, c, v, allowed, follows, rfl⟩)
    | condAnd _ left right =>
      obtain ⟨first, second⟩ := Site.allows_append.1 allowed
      exact .inr (.inr ⟨_, rfl, left, _, first,
        .inl ⟨_, rfl, right, _, second, ⟨v, rfl, follows⟩, rfl⟩, by simp⟩)
    | condOr _ left right =>
      obtain ⟨first, second⟩ := Site.allows_append.1 allowed
      exact .inr (.inr ⟨_, rfl, left, _, first,
        .inr ⟨_, rfl, right, _, second, ⟨v, rfl, follows⟩, rfl⟩, by simp⟩)
  · rintro (⟨c, v, allowed, follows, rfl⟩ | ⟨_, rfl, c, v, allowed, follows, rfl⟩ |
      ⟨_, rfl, left, _, first, ⟨_, rfl, right, _, second, ⟨v, rfl, follows⟩, rfl⟩ |
        ⟨_, rfl, right, _, second, ⟨v, rfl, follows⟩, rfl⟩, rfl⟩)
    · exact ⟨.condCompare () c, v, allowed, follows, rfl⟩
    · exact ⟨.condNot () c, v, allowed, follows, rfl⟩
    · exact ⟨.condAnd () left right, v, Site.allows_append.2 ⟨first, second⟩, follows, by simp⟩
    · exact ⟨.condOr () left right, v, Site.allows_append.2 ⟨first, second⟩, follows, by simp⟩

theorem phrase_assign : phrase .uses .assign K =
    phrase .uses .ident (tok (.mark .assign)
      (phrase .uses .expr (tok (.mark .semicolon) K))) := by
  refine eq_of_iff fun names u => ⟨?_, ?_⟩
  · rintro ⟨d, v, allowed, follows, rfl⟩
    cases d with
    | assign _ target value =>
      obtain ⟨first, second⟩ := Site.allows_append.1 allowed
      exact ⟨target, _, first, ⟨_, rfl, value, _, second, ⟨v, rfl, follows⟩, rfl⟩, by simp⟩
  · rintro ⟨target, _, first, ⟨_, rfl, value, _, second, ⟨v, rfl, follows⟩, rfl⟩, rfl⟩
    exact ⟨.assign () target value, v, Site.allows_append.2 ⟨first, second⟩, follows, by simp⟩

/-- The end of a block and of the statement that holds it. -/
def blockEnd (K : Future) : Future :=
  tok (.keyword .endWord) (tok (.mark .semicolon) K)

theorem phrase_ifStmt : phrase .uses .ifStmt K =
    tok (.keyword .ifWord) (phrase .uses .cond (tok (.keyword .thenWord) (phrase .uses .stmtSeq
      (either (tok (.keyword .elseWord) (phrase .uses .stmtSeq (blockEnd K))) (blockEnd K))))) := by
  refine eq_of_iff fun names u => ⟨?_, ?_⟩
  · rintro ⟨d, v, allowed, follows, rfl⟩
    cases d with
    | ifThen _ cond body =>
      obtain ⟨first, second⟩ := Site.allows_append.1 allowed
      exact ⟨_, rfl, cond, _, first, ⟨_, rfl, body, _, second,
        .inr ⟨_, rfl, v, rfl, follows⟩, rfl⟩, by simp⟩
    | ifElse _ cond body other =>
      obtain ⟨front, last⟩ := Site.allows_append.1 allowed
      obtain ⟨first, second⟩ := Site.allows_append.1 front
      exact ⟨_, rfl, cond, _, first, ⟨_, rfl, body, _, second,
        .inl ⟨_, rfl, other, _, last, ⟨_, rfl, v, rfl, follows⟩, rfl⟩, rfl⟩, by simp⟩
  · rintro ⟨_, rfl, cond, _, first, ⟨_, rfl, body, _, second,
      ⟨_, rfl, other, _, last, ⟨_, rfl, v, rfl, follows⟩, rfl⟩ | ⟨_, rfl, v, rfl, follows⟩, rfl⟩, rfl⟩
    · exact ⟨.ifElse () cond body other, v,
        Site.allows_append.2 ⟨Site.allows_append.2 ⟨first, second⟩, last⟩, follows, by simp⟩
    · exact ⟨.ifThen () cond body, v, Site.allows_append.2 ⟨first, second⟩, follows, by simp⟩

theorem phrase_whileStmt : phrase .uses .whileStmt K =
    tok (.keyword .whileWord) (phrase .uses .cond (tok (.keyword .loopWord)
      (phrase .uses .stmtSeq (blockEnd K)))) := by
  refine eq_of_iff fun names u => ⟨?_, ?_⟩
  · rintro ⟨d, v, allowed, follows, rfl⟩
    cases d with
    | whileLoop _ cond body =>
      obtain ⟨first, second⟩ := Site.allows_append.1 allowed
      exact ⟨_, rfl, cond, _, first, ⟨_, rfl, body, _, second,
        ⟨_, rfl, v, rfl, follows⟩, rfl⟩, by simp⟩
  · rintro ⟨_, rfl, cond, _, first, ⟨_, rfl, body, _, second, ⟨_, rfl, v, rfl, follows⟩, rfl⟩, rfl⟩
    exact ⟨.whileLoop () cond body, v, Site.allows_append.2 ⟨first, second⟩, follows, by simp⟩

theorem phrase_stmt_iff {names : List String} {u : List Terminal} :
    phrase .uses .stmt K names u ↔ ∃ tag ∈ Tag.statements, phrase .uses tag K names u := by
  constructor
  · rintro ⟨d, v, allowed, follows, rfl⟩
    cases d with
    | stmtAssign _ inner => exact ⟨.assign, by decide, inner, v, allowed, follows, rfl⟩
    | stmtIf _ inner => exact ⟨.ifStmt, by decide, inner, v, allowed, follows, rfl⟩
    | stmtWhile _ inner => exact ⟨.whileStmt, by decide, inner, v, allowed, follows, rfl⟩
    | stmtInput _ inner => exact ⟨.input, by decide, inner, v, allowed, follows, rfl⟩
    | stmtOutput _ inner => exact ⟨.output, by decide, inner, v, allowed, follows, rfl⟩
  · rintro ⟨tag, among, inner, v, allowed, follows, rfl⟩
    cases tag with
    | assign => exact ⟨.stmtAssign () inner, v, allowed, follows, rfl⟩
    | ifStmt => exact ⟨.stmtIf () inner, v, allowed, follows, rfl⟩
    | whileStmt => exact ⟨.stmtWhile () inner, v, allowed, follows, rfl⟩
    | input => exact ⟨.stmtInput () inner, v, allowed, follows, rfl⟩
    | output => exact ⟨.stmtOutput () inner, v, allowed, follows, rfl⟩
    | _ => exact absurd among (by decide)

end Productions

end Future

/-! ### Samples -/

/-- Names that a program can have declared. -/
structure ProperNames (names : List String) : Prop where
  nonempty : names ≠ []
  distinct : names.Nodup
  written : ∀ x ∈ names, IsName x

/-- There is always one more name. -/
theorem exists_fresh (names : List String) : ∃ x, IsName x ∧ x ∉ names := by
  -- a name of capitals that is longer than all the others
  obtain ⟨n, longer⟩ : ∃ n, ∀ x ∈ names, x.toList.length < n := by
    induction names with
    | nil => exact ⟨0, by simp⟩
    | cons x xs ih =>
      obtain ⟨n, longer⟩ := ih
      refine ⟨n + x.toList.length + 1, ?_⟩
      intro y among
      rcases List.mem_cons.1 among with rfl | among
      · omega
      · have := longer y among
        omega
  refine ⟨String.ofList (List.replicate (n + 1) 'A'), ⟨⟨'A', List.replicate n 'A', ?_, by decide⟩,
    ?_⟩, ?_⟩
  · rw [String.toList_ofList, List.replicate_succ]
  · rw [String.toList_ofList, List.dropWhile_replicate]
    rfl
  · intro among
    have := longer _ among
    rw [String.toList_ofList, List.length_replicate] at this
    omega

namespace Derivation

section Samples

variable (x : String)

def sampleIds : Derivation Unit String .idList := .idListLast () (.ident () x)

def sampleExpr : Derivation Unit String .expr :=
  .exprTerm () (.termOperand () (.operandIdent () (.ident () x)))

def sampleComparison : Derivation Unit String .comparison :=
  .comparison () (.operandIdent () (.ident () x)) (.compOp () .equal)
    (.operandIdent () (.ident () x))

def sampleBlock : Derivation Unit String .stmtSeq :=
  .stmtSeqLast () (.stmtInput () (.input () (sampleIds x)))

/-- A derivation from each tag, with no variable but `x`. -/
def sample : (tag : Tag) → Derivation Unit String tag
  | .program => .program () (.declSeqLast () (.decl () (sampleIds x))) (sampleBlock x)
  | .declSeq => .declSeqLast () (.decl () (sampleIds x))
  | .stmtSeq => sampleBlock x
  | .decl => .decl () (sampleIds x)
  | .idList => sampleIds x
  | .stmt => .stmtInput () (.input () (sampleIds x))
  | .assign => .assign () (.ident () x) (sampleExpr x)
  | .ifStmt => .ifThen () (.condCompare () (sampleComparison x)) (sampleBlock x)
  | .whileStmt => .whileLoop () (.condCompare () (sampleComparison x)) (sampleBlock x)
  | .input => .input () (sampleIds x)
  | .output => .output () (sampleIds x)
  | .cond => .condCompare () (sampleComparison x)
  | .comparison => sampleComparison x
  | .expr => sampleExpr x
  | .term => .termOperand () (.operandIdent () (.ident () x))
  | .operand => .operandIdent () (.ident () x)
  | .compOp => .compOp () .equal
  | .int => .int () 0
  | .ident => .ident () x

variable {x}

theorem vars_sample {tag : Tag} : ∀ y ∈ (sample x tag).vars, y = x := by
  cases tag <;> simp [sample, sampleIds, sampleExpr, sampleComparison, sampleBlock]

theorem written_sample (name : IsName x) {tag : Tag} :
    ∀ t ∈ (sample x tag).yield, t.Written := by
  cases tag <;>
    simp [sample, sampleIds, sampleExpr, sampleComparison, sampleBlock, Terminal.Written, name]

end Samples

end Derivation

/-- The text can be written, but for its end. -/
def Writable (u : List Terminal) : Prop := ∀ t ∈ u, t = .eof ∨ t.Written

/-- Some text that can be written is among them. -/
def Live (M : List Terminal → Prop) : Prop := ∃ u, M u ∧ Writable u

namespace Future

/-- Some text may follow, whatever is declared. -/
def Alive (F : Future) : Prop := ∀ names, ProperNames names → Live (F names)

section Live

variable {K : Future} {names : List String}

theorem live_tok {t : Terminal} (written : t.Written) (h : Live (K names)) :
    Live (tok t K names) := by
  obtain ⟨v, follows, writable⟩ := h
  refine ⟨t :: v, ⟨v, rfl, follows⟩, ?_⟩
  intro t' among
  rcases List.mem_cons.1 among with rfl | among
  · exact .inr written
  · exact writable t' among

/-- A derivation that can be written leads to a future that is alive. -/
theorem live_phrase {site : Site} {tag : Tag} {d : Derivation Unit String tag}
    (allowed : site.Allows names d.vars) (written : ∀ t ∈ d.yield, t.Written)
    (h : Live (K (site.after names d.vars))) : Live (phrase site tag K names) := by
  obtain ⟨v, follows, writable⟩ := h
  refine ⟨d.yield ++ v, ⟨d, v, allowed, follows, rfl⟩, ?_⟩
  intro t among
  rcases List.mem_append.1 among with among | among
  · exact .inr (written t among)
  · exact writable t among

end Live

namespace Alive

variable {F G K : Future} {tag : Tag}

theorem done : Alive done :=
  fun _ _ => ⟨[.eof], rfl, by simp [Writable]⟩

theorem tok {t : Terminal} (written : t.Written) (h : Alive K) : Alive (tok t K) :=
  fun names proper => live_tok written (h names proper)

theorem left (h : Alive F) : Alive (either F G) := by
  intro names proper
  obtain ⟨u, follows, writable⟩ := h names proper
  exact ⟨u, .inl follows, writable⟩

theorem blockEnd (h : Alive K) : Alive (blockEnd K) :=
  tok trivial (tok trivial h)

theorem uses (h : Alive K) : Alive (phrase .uses tag K) := by
  intro names proper
  obtain ⟨x, declared⟩ := List.exists_mem_of_ne_nil names proper.nonempty
  refine live_phrase (d := .sample x tag) ?_ (Derivation.written_sample (proper.written x declared))
    (h names proper)
  intro y hy
  exact Derivation.vars_sample y hy ▸ declared

theorem declares (single : ∀ x, (Derivation.sample x tag).vars = [x]) (h : Alive K)
    {names : List String} (distinct : names.Nodup) (written : ∀ x ∈ names, IsName x) :
    Live (phrase .declares tag K names) := by
  obtain ⟨x, name, fresh⟩ := exists_fresh names
  have more : (names ++ [x]).Nodup := by
    simpa using List.Nodup.concat fresh distinct
  refine live_phrase (d := .sample x tag) ?_ (Derivation.written_sample name) ?_
  · rw [single]
    exact more
  · rw [single]
    refine h (names ++ [x]) ⟨by simp, more, ?_⟩
    intro y hy
    rcases List.mem_append.1 hy with hy | hy
    · exact written y hy
    · exact List.mem_singleton.1 hy ▸ name

/-- The same of a place of either kind. -/
theorem named {site : Site} (single : ∀ x, (Derivation.sample x tag).vars = [x]) (h : Alive K) :
    Alive (phrase site tag K) := by
  cases site with
  | uses => exact h.uses
  | declares => exact fun _ proper => declares single h proper.distinct proper.written

end Alive

end Future

end CoreLang
