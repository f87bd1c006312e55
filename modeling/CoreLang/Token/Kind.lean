import CoreLang.Token
import CoreLang.Text.Column

/-!
# Kinds of tokens

A `Kind` is a token without its content. Kinds are numbered from one: keywords,
then marks, then literal, identifier and end.
-/

namespace CoreLang

inductive Kind where
  | keyword (word : Keyword)
  | mark (sign : Mark)
  | integer
  | identifier
  | eof
deriving Repr, DecidableEq, Inhabited

namespace Kind

def all : List Kind :=
  Keyword.all.map .keyword ++ Mark.all.map .mark ++ [.integer, .identifier, .eof]

/-- The position of a kind among all kinds, counted from one. -/
def code (kind : Kind) : Nat :=
  all.idxOf kind + 1

def ofCode? (code : Nat) : Option Kind :=
  match code with
  | 0 => none
  | n + 1 => all[n]?

def isKeyword : Kind → Bool
  | .keyword _ => true
  | _ => false

/-- Whether a token of this kind opens a statement. -/
def startsStatement : Kind → Bool
  | .identifier => true
  | .keyword .ifWord => true
  | .keyword .whileWord => true
  | .keyword .readWord => true
  | .keyword .writeWord => true
  | _ => false

/-- The name of a kind, as token listings show it. -/
def name : Kind → String
  | .keyword .programWord => "Program"
  | .keyword .beginWord => "Begin"
  | .keyword .endWord => "End"
  | .keyword .intWord => "Int"
  | .keyword .ifWord => "If"
  | .keyword .thenWord => "Then"
  | .keyword .elseWord => "Else"
  | .keyword .whileWord => "While"
  | .keyword .loopWord => "Loop"
  | .keyword .readWord => "Read"
  | .keyword .writeWord => "Write"
  | .mark .semicolon => "Semicolon"
  | .mark .comma => "Comma"
  | .mark .assign => "Assign"
  | .mark .bang => "Bang"
  | .mark .openBracket => "LBracket"
  | .mark .closeBracket => "RBracket"
  | .mark .andAnd => "AndAnd"
  | .mark .orOr => "OrOr"
  | .mark .openParen => "LParen"
  | .mark .closeParen => "RParen"
  | .mark .plus => "Plus"
  | .mark .minus => "Minus"
  | .mark .star => "Star"
  | .mark .notEqual => "BangEqual"
  | .mark .equal => "EqualEqual"
  | .mark .less => "Less"
  | .mark .greater => "Greater"
  | .mark .lessEqual => "LessEqual"
  | .mark .greaterEqual => "GreaterEqual"
  | .integer => "Integer"
  | .identifier => "Identifier"
  | .eof => "Eof"

/-- The width of the name column in token listings. -/
def columnWidth : Nat := 12

end Kind

/-- The kind of a token. -/
def Token.kind : Token → Kind
  | .keyword word => .keyword word
  | .mark sign => .mark sign
  | .integer _ => .integer
  | .identifier _ => .identifier
  | .eof => .eof

namespace Lexeme

def kind (lexeme : Lexeme) : Kind := lexeme.token.kind

def text (lexeme : Lexeme) : String := lexeme.token.text

/-- A lexeme as traces show it: its kind, and its text in quotes. -/
def shown (lexeme : Lexeme) : String :=
  lexeme.kind.name ++ "('" ++ lexeme.text ++ "')"

end Lexeme

end CoreLang
