import CoreLang.Number
import CoreLang.Parse.Error
import CoreLang.Symbol
import CoreLang.Token.Kind
import CoreLang.Token.Stream
import CoreLang.Tree

/-!
# The state of a parse

A parse looks one token ahead and keeps the symbols declared so far. It also
keeps account of the nodes that it makes: in the tree that it builds
(`TreeBudget`), or in mere numbers (`Budget`). The steps in this file leave this
budget alone. `depth` counts the constructs around the current place that can
hold others of their kind.

The state is carried past a fault too: what had been read, claimed and declared
up to there.
-/

namespace CoreLang

/-- An account of nodes: finished ones, reserved ones, and room for both. -/
structure Budget where
  capacity : Nat
  built : Nat := 0
  reserved : Nat := 0
deriving Repr, DecidableEq, Inhabited

/-- A tree that is being built, and how many more nodes the rules in progress have
claimed. -/
structure TreeBudget where
  tree : Tree
  reserved : Nat := 0
deriving Repr, DecidableEq, Inhabited

/-- The budget of a tree that is still empty. -/
def TreeBudget.ofCapacity (capacity : Nat) : TreeBudget :=
  { tree := .ofCapacity capacity }

structure ParseState (β : Type := Budget) where
  lookahead : Lexeme
  upcoming : List Lexeme
  ending : Ending
  symbols : SymbolTable
  budget : β
  depth : Nat
  /-- How many tokens the whole text has: no rule repeats itself more often. -/
  tokenCount : Nat
deriving Repr, DecidableEq, Inhabited

variable {α β : Type}

/-- The state before the first token. -/
def ParseState.startWith (budget : β) (stream : TokenStream) : Except ParseError (ParseState β) :=
  let state (lookahead : Lexeme) (upcoming : List Lexeme) : ParseState β :=
    { lookahead := lookahead
      upcoming := upcoming
      ending := stream.ending
      symbols := .empty
      budget := budget
      depth := 0
      tokenCount := stream.lexemes.length }
  match stream.lexemes, stream.ending with
  | first :: rest, _ => .ok (state first rest)
  | [], .eof line => .ok (state { token := .eof, line := line } [])
  | [], .fault fault => .error (.ofScan fault)

abbrev ParsingM (β : Type) := EStateM ParseError (ParseState β)

namespace ParseM

/-- How many constructs may lie around a place. -/
def maxNesting : Nat := 1000

/-- The token ahead. -/
def peek : ParsingM β Token := fun s => .ok s.lookahead.token s

/-- The line of the token ahead. -/
def peekLine : ParsingM β Nat := fun s => .ok s.lookahead.line s

/-- Steps past the token ahead. Behind the last token stands the end of the text,
which is never passed, or the fault that the text stops at. -/
def advance : ParsingM β Unit := fun s =>
  if s.lookahead.token = .eof then .ok () s
  else
    match s.upcoming, s.ending with
    | next :: rest, _ => .ok () { s with lookahead := next, upcoming := rest }
    | [], .eof line => .ok () { s with lookahead := { token := .eof, line := line } }
    | [], .fault fault => .error (.ofScan fault) s

/-- The token ahead is not what the grammar wants. -/
def unexpected (expected : Expected) : ParsingM β α := fun s =>
  .error (.unexpected expected s.lookahead.text s.lookahead.line) s

/-- Steps past the given token, which must be ahead. -/
def expect (token : Token) (expected : Expected) : ParsingM β Unit := do
  if (← peek) = token then advance else unexpected expected

/-- The end of a block and of the statement that holds it. -/
def blockEnd : ParsingM β Unit := do
  expect (.keyword .endWord) .closing
  expect (.mark .semicolon) .semicolon

/-- Nothing may follow a program. -/
def nothingMore : ParsingM β Unit := fun s =>
  if s.lookahead.token = .eof then .ok () s
  else .error (.trailingTokens s.lookahead.text s.lookahead.line) s

/-- Whether a place declares the names in it or uses declared ones. -/
inductive Site where
  | declares
  | uses
deriving Repr, DecidableEq, Inhabited

/-- The symbol of the name ahead: a new one where names are declared, and a known
one where they are used. -/
def bindName (site : Site) (name : String) : ParsingM β Symbol := fun s =>
  match site with
  | .declares =>
    match s.symbols.declare? name with
    | some (symbol, symbols) => .ok symbol { s with symbols := symbols }
    | none => .error (.duplicateVariable name s.lookahead.line) s
  | .uses =>
    match s.symbols.resolve? name with
    | some symbol => .ok symbol s
    | none => .error (.undeclaredVariable name s.lookahead.line) s

/-- The comparison that a token stands for. -/
def comparator? : Token → Option Comparator
  | .mark .notEqual => some .notEqual
  | .mark .equal => some .equal
  | .mark .less => some .less
  | .mark .greater => some .greater
  | .mark .lessEqual => some .lessEqual
  | .mark .greaterEqual => some .greaterEqual
  | _ => none

/-- The text nests too deeply. -/
def tooDeep : ParsingM β α := fun s =>
  .error (.tree (.nestingTooDeep maxNesting)) s

/-- A rule that repeats itself, with a bound on how often: every round but the first
takes a token, so the number of tokens is enough. -/
def repeating (rule : Nat → ParsingM β α) : ParsingM β α := fun s =>
  rule s.tokenCount s

end ParseM

end CoreLang
