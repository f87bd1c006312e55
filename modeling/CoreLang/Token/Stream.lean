import CoreLang.Token.Scanner

/-!
# The tokens of a text

`TokenStream.ofSource` scans a text up to its end or its first fault. A reader of
the stream that asks for one token at a time sees what it would see by scanning
on demand, since scanning depends on nothing but the text.
-/

namespace CoreLang

/-- What stands behind the last token: the end of the text, or a fault. -/
inductive Ending where
  | eof (line : Nat)
  | fault (fault : ScanFault)
deriving Repr, DecidableEq, Inhabited

structure TokenStream where
  lexemes : List Lexeme
  ending : Ending
deriving Repr, DecidableEq, Inhabited

namespace TokenStream

set_option linter.unusedVariables false in
/-- The tokens from a place in a text on. -/
def ofScanner (s : Scanner) : TokenStream :=
  match h : s.next with
  | (.error fault, _) => { lexemes := [], ending := .fault fault }
  | (.ok lexeme, behind) =>
    if more : lexeme.token = .eof then { lexemes := [], ending := .eof lexeme.line }
    else
      let tail := ofScanner behind
      { tail with lexemes := lexeme :: tail.lexemes }
termination_by s.rest.length
decreasing_by exact Scanner.length_rest_next_lt h more

/-- The tokens of a text. -/
def ofSource (source : String) : TokenStream :=
  ofScanner (Scanner.ofSource source)

/-- The tokens of a text with its end as a last token, if it has no fault. -/
def withEnd (s : TokenStream) : List Lexeme :=
  match s.ending with
  | .eof line => s.lexemes ++ [{ token := .eof, line := line }]
  | .fault _ => s.lexemes

end TokenStream

end CoreLang
