import CoreLang.Command.Arguments
import CoreLang.Command.Folder
import CoreLang.Command.Report

/-!
# The token lister tool

Lists the tokens of a program text, one on a line, the end of the text included:
by the number of their kind, or by its name with the text of the token.
-/

namespace CoreLang.Command.TokenLister

def switches : List Switch :=
  [ { long := "names", form := .flag },
    { long := "verbose", letter := some 'v', form := .counted } ]

def usage : String :=
  "Usage: [--names] [-v] SOURCE\n"

/-- The line of a token. -/
def line (names : Bool) (lexeme : Lexeme) : String :=
  if names then Text.alignLeft Kind.columnWidth lexeme.kind.name ++ " " ++ lexeme.text ++ "\n"
  else Text.Decimal.ofNat lexeme.kind.code ++ "\n"

/-- The lines of all tokens up to the end or the first fault. -/
def listing (names : Bool) (stream : TokenStream) : String :=
  String.join (stream.withEnd.map (line names))

def perform (source : String) (names : Bool) (files : String → FileEntry) : Report :=
  match (files source).source source with
  | .error error => .ofError error
  | .ok text =>
    let stream := TokenStream.ofSource text
    let output := Text.Utf8.encode (listing names stream)
    match stream.ending with
    | .eof _ => { code := 0, output := output }
    | .fault fault => .ofError (.parse (.ofScan fault)) output

def run (args : List String) (files : String → FileEntry) : Report :=
  match Arguments.parse? switches 1 args with
  | some a =>
    match a.positional with
    | [source] => perform source (a.has "names") files
    | _ => { code := usageCode, diagnostics := usage }
  | none => { code := usageCode, diagnostics := usage }

end CoreLang.Command.TokenLister
