import CoreLang.Text.Quoted
import CoreLang.Token.Scanner
import CoreLang.Tree.Error

/-!
# Faults of program texts

Why a text is no program: a piece of it is no token, a token stands where the
grammar wants another, a name is declared twice or not at all, or the tree that
the text would need is too large or too deep.
-/

namespace CoreLang

/-- What the grammar wants at a place. -/
inductive Expected where
  | program
  | begin
  | closing
  | thenBranch
  | elseOrEnd
  | loopBody
  | semicolon
  | assign
  | closeBracket
  | closeParen
  | logicalOperator
  | identifier
  | declaration
  | statement
  | comparison
  | comparisonOperator
  | operand
deriving Repr, DecidableEq, Inhabited

namespace Expected

/-- A token is named in double quotes, anything larger in words. -/
def text : Expected → String
  | .program => "\"program\""
  | .begin => "\"begin\""
  | .closing => "\"end\""
  | .thenBranch => "\"then\""
  | .elseOrEnd => "\"else\" or \"end\""
  | .loopBody => "\"loop\""
  | .semicolon => "\";\""
  | .assign => "\"=\""
  | .closeBracket => "\"]\""
  | .closeParen => "\")\""
  | .logicalOperator => "\"&&\" or \"||\""
  | .identifier => "an identifier"
  | .declaration => "at least one declaration"
  | .statement => "at least one statement"
  | .comparison => "a comparison condition"
  | .comparisonOperator => "a comparison operator"
  | .operand => "an integer, an identifier, or an expression"

end Expected

inductive ParseError where
  | invalidCharacter (char : Char) (line : Nat)
  | invalidToken (token : String) (line : Nat)
  | whitespaceRequired (token : String) (line : Nat)
  | literalTooLarge (token : String) (line : Nat)
  | unexpected (expected : Expected) (found : String) (line : Nat)
  | trailingTokens (found : String) (line : Nat)
  | duplicateVariable (name : String) (line : Nat)
  | undeclaredVariable (name : String) (line : Nat)
  | tree (error : TreeError)
deriving Repr, DecidableEq, Inhabited

namespace ParseError

/-- The line a fault is reported on; the limits of the tree belong to no line. -/
def line? : ParseError → Option Nat
  | .invalidCharacter _ line
  | .invalidToken _ line
  | .whitespaceRequired _ line
  | .literalTooLarge _ line
  | .unexpected _ _ line
  | .trailingTokens _ line
  | .duplicateVariable _ line
  | .undeclaredVariable _ line => some line
  | .tree _ => none

/-- A scanning fault as a fault of the text. A punctuation character that starts
no mark counts as a token, any other character without a use as a character. -/
def ofScan (fault : ScanFault) : ParseError :=
  match fault.cause with
  | .invalidToken => .invalidToken fault.text fault.line
  | .whitespaceRequired => .whitespaceRequired fault.text fault.line
  | .literalTooLarge => .literalTooLarge fault.text fault.line
  | .invalidCharacter =>
    match fault.text.toList with
    | [] => .invalidToken fault.text fault.line
    | c :: _ =>
      if isPunctuation c then .invalidToken fault.text fault.line
      else .invalidCharacter c fault.line

/-- What is wrong, without the line. -/
def reason : ParseError → String
  | .invalidCharacter char _ => "Invalid character: " ++ Text.quoted char
  | .invalidToken token _ => "Invalid token: " ++ token
  | .whitespaceRequired token _ => "Whitespace required after " ++ token ++ " token."
  | .literalTooLarge token _ => "Integer literal too large: " ++ token
  | .unexpected expected found _ => "Expecting " ++ expected.text ++ " at " ++ found
  | .trailingTokens found _ => "No tokens allowed after program end, found " ++ found
  | .duplicateVariable name _ => "Duplicate variable " ++ name
  | .undeclaredVariable name _ => "Undeclared variable " ++ name
  | .tree error => error.message

def message (e : ParseError) : String :=
  match e.line? with
  | some line => "Error on line " ++ Text.Decimal.ofNat line ++ ": " ++ e.reason
  | none => e.reason

end ParseError

end CoreLang
