import CoreLang.Text.GraphemeExtend

/-!
# Quoted characters

How a message shows one character: between single quotes, with a backslash form
for the characters that would break the line, end the quotes or not show at all.
-/

namespace CoreLang.Text

/-- The digits of `n` in base sixteen, lower case, without leading zeros. -/
def hexadecimal (n : Nat) : String :=
  String.ofList (Nat.toDigits 16 n)

/-- The body of a quoted character. Nul, tab, line ends, quote and backslash
have a short form; a character that does not stand on its own is named by its
code point; any other is written as it is. -/
def escaped (c : Char) : String :=
  match c with
  | '\x00' => "\\0"
  | '\t' => "\\t"
  | '\n' => "\\n"
  | '\r' => "\\r"
  | '\'' => "\\'"
  | '\\' => "\\\\"
  | _ =>
    if isExtendingMark c || isUnprintable c then
      "\\u\x7b" ++ hexadecimal c.toNat ++ "\x7d"
    else c.toString

/-- `c` between single quotes. -/
def quoted (c : Char) : String :=
  "'" ++ escaped c ++ "'"

end CoreLang.Text
