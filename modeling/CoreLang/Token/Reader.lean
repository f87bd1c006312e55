import CoreLang.Token.Scanner

/-!
# Reading tokens one ahead

A `TokenReader` holds the token it stands on and the place behind it. `advance`
steps to the next token; a fault on the way leaves the reader on its old token
with the faulty text passed over. `next` hands out the tokens in turn and stops
for good after the end or the first fault.
-/

namespace CoreLang

structure TokenReader where
  scanner : Scanner
  current : Lexeme
  exhausted : Bool := false
deriving Repr, DecidableEq, Inhabited

namespace TokenReader

/-- A reader on the first token of a text. -/
def ofSource? (source : String) : Except ScanFault TokenReader :=
  match (Scanner.ofSource source).next with
  | (.ok lexeme, behind) => .ok { scanner := behind, current := lexeme }
  | (.error fault, _) => .error fault

/-- Steps to the next token. At the end of the text nothing happens. -/
def advance (r : TokenReader) : Except ScanFault Unit × TokenReader :=
  if r.current.token = .eof then (.ok (), r)
  else
    match r.scanner.next with
    | (.ok lexeme, behind) => (.ok (), { r with scanner := behind, current := lexeme })
    | (.error fault, behind) => (.error fault, { r with scanner := behind })

/-- Hands out the current token and steps on. The end is handed out once; a fault
is handed out in place of the token before it; nothing follows either. -/
def next (r : TokenReader) : Option (Except ScanFault Lexeme) × TokenReader :=
  if r.exhausted then (none, r)
  else if r.current.token = .eof then (some (.ok r.current), { r with exhausted := true })
  else
    match r.advance with
    | (.ok (), r') => (some (.ok r.current), r')
    | (.error fault, r') => (some (.error fault), { r' with exhausted := true })

end TokenReader

end CoreLang
