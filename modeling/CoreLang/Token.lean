import CoreLang.Number

/-!
# Tokens

The vocabulary of the language: eleven keywords, nineteen marks, integer
literals, identifiers, and the end of the text. A `Lexeme` is a token together
with the line it stands on.
-/

namespace CoreLang

/-- The reserved words. -/
inductive Keyword where
  | programWord
  | beginWord
  | endWord
  | intWord
  | ifWord
  | thenWord
  | elseWord
  | whileWord
  | loopWord
  | readWord
  | writeWord
deriving Repr, DecidableEq, Inhabited

/-- The marks: punctuation and operators. -/
inductive Mark where
  | semicolon
  | comma
  | assign
  | bang
  | openBracket
  | closeBracket
  | andAnd
  | orOr
  | openParen
  | closeParen
  | plus
  | minus
  | star
  | notEqual
  | equal
  | less
  | greater
  | lessEqual
  | greaterEqual
deriving Repr, DecidableEq, Inhabited

namespace Keyword

def all : List Keyword :=
  [.programWord, .beginWord, .endWord, .intWord, .ifWord, .thenWord, .elseWord, .whileWord,
    .loopWord, .readWord, .writeWord]

/-- The word itself. -/
def text : Keyword → String
  | .programWord => "program"
  | .beginWord => "begin"
  | .endWord => "end"
  | .intWord => "int"
  | .ifWord => "if"
  | .thenWord => "then"
  | .elseWord => "else"
  | .whileWord => "while"
  | .loopWord => "loop"
  | .readWord => "read"
  | .writeWord => "write"

/-- The keyword that is spelled so, if any is. -/
def ofText? (word : String) : Option Keyword :=
  all.find? (·.text = word)

end Keyword

namespace Mark

def all : List Mark :=
  [.semicolon, .comma, .assign, .bang, .openBracket, .closeBracket, .andAnd, .orOr, .openParen,
    .closeParen, .plus, .minus, .star, .notEqual, .equal, .less, .greater, .lessEqual,
    .greaterEqual]

/-- The characters of the mark. -/
def text : Mark → String
  | .semicolon => ";"
  | .comma => ","
  | .assign => "="
  | .bang => "!"
  | .openBracket => "["
  | .closeBracket => "]"
  | .andAnd => "&&"
  | .orOr => "||"
  | .openParen => "("
  | .closeParen => ")"
  | .plus => "+"
  | .minus => "-"
  | .star => "*"
  | .notEqual => "!="
  | .equal => "=="
  | .less => "<"
  | .greater => ">"
  | .lessEqual => "<="
  | .greaterEqual => ">="

/-- The mark of one character. -/
def single? : Char → Option Mark
  | ';' => some .semicolon
  | ',' => some .comma
  | '=' => some .assign
  | '!' => some .bang
  | '[' => some .openBracket
  | ']' => some .closeBracket
  | '(' => some .openParen
  | ')' => some .closeParen
  | '+' => some .plus
  | '-' => some .minus
  | '*' => some .star
  | '<' => some .less
  | '>' => some .greater
  | _ => none

/-- The mark of two characters. -/
def double? : Char → Char → Option Mark
  | '&', '&' => some .andAnd
  | '|', '|' => some .orOr
  | '!', '=' => some .notEqual
  | '=', '=' => some .equal
  | '<', '=' => some .lessEqual
  | '>', '=' => some .greaterEqual
  | _, _ => none

end Mark

/-- A token. A literal keeps its digits as written, leading zeros included. -/
inductive Token where
  | keyword (word : Keyword)
  | mark (sign : Mark)
  | integer (digits : String)
  | identifier (name : String)
  | eof
deriving Repr, DecidableEq, Inhabited

namespace Token

/-- The text of a token; the end of the text is shown as `EOF`. -/
def text : Token → String
  | .keyword word => word.text
  | .mark sign => sign.text
  | .integer digits => digits
  | .identifier name => name
  | .eof => "EOF"

/-- The value of the digits of a literal. A scanned literal fits 64 bits. -/
def literal (digits : String) : Int64 :=
  Int64.ofNat (Text.Decimal.value digits.toList)

/-- The value of an integer literal. -/
def value? : Token → Option Int64
  | .integer digits => some (literal digits)
  | _ => none

/-- The name of an identifier. -/
def name? : Token → Option String
  | .identifier name => some name
  | _ => none

end Token

/-- A token and the line it stands on, counted from one. -/
structure Lexeme where
  token : Token
  line : Nat
deriving Repr, DecidableEq, Inhabited

end CoreLang
