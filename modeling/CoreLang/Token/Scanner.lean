import CoreLang.Token

/-!
# Scanning

A `Scanner` is a place in a text: the characters still ahead and the line they
start on. `Scanner.next` skips blanks and cuts one piece off the front, always
the longest that its first character allows. The piece is a token or a fault;
either way the scanner stands behind it afterwards, so scanning can go on past a
fault.

Words (keywords, literals, identifiers) must be cut off: what follows one is the
end of the text, a blank or a punctuation character.
-/

namespace CoreLang

/-- Why a piece of text is no token. -/
inductive ScanCause where
  | invalidCharacter
  | invalidToken
  | whitespaceRequired
  | literalTooLarge
deriving Repr, DecidableEq, Inhabited

namespace ScanCause

def text : ScanCause → String
  | .invalidCharacter => "invalid character"
  | .invalidToken => "invalid token"
  | .whitespaceRequired => "whitespace required"
  | .literalTooLarge => "integer literal too large"

end ScanCause

/-- A piece of text that is no token, with the line it stands on. -/
structure ScanFault where
  cause : ScanCause
  text : String
  line : Nat
deriving Repr, DecidableEq, Inhabited

/-- The characters that only separate: space, tab, the two line-end characters,
form feed and vertical tab. -/
def isBlank (c : Char) : Bool :=
  c = ' ' || c = '\t' || c = '\n' || c = '\r' || c = '\x0C' || c = '\x0B'

/-- ASCII punctuation: the visible ASCII characters other than letters and digits. -/
def isPunctuation (c : Char) : Bool :=
  0x21 ≤ c.toNat && c.toNat ≤ 0x7E && !c.isAlphanum

/-- The characters that may follow a word. -/
def isSeparator (c : Char) : Bool :=
  isBlank c || isPunctuation c

/-- Whether a word that ends before `rest` is cut off from what follows it. -/
def isCutOff : List Char → Bool
  | [] => true
  | c :: _ => isSeparator c

/-- The front of a text, what it reads as, and the text behind it. -/
structure Piece where
  text : List Char
  reading : Except ScanCause Token
  rest : List Char

namespace Piece

/-- Lower-case letters are a keyword or nothing. -/
def readWord (word : String) (rest : List Char) : Except ScanCause Token :=
  match Keyword.ofText? word with
  | none => .error .invalidToken
  | some k => if isCutOff rest then .ok (.keyword k) else .error .whitespaceRequired

/-- Digits are a literal if their value is that of a 64-bit number. -/
def readDigits (digits : String) (rest : List Char) : Except ScanCause Token :=
  if !isCutOff rest then .error .whitespaceRequired
  else if Text.Decimal.value digits.toList ≤ Int64.maxValue.toInt then .ok (.integer digits)
  else .error .literalTooLarge

/-- Capitals and digits are a name if no capital comes after a digit. -/
def readName (name : String) (rest : List Char) : Except ScanCause Token :=
  if !(name.toList.dropWhile Char.isUpper).all Char.isDigit then .error .invalidToken
  else if isCutOff rest then .ok (.identifier name)
  else .error .whitespaceRequired

/-- The piece `c :: (characters of cs that satisfy p)`. -/
def run (c : Char) (cs : List Char) (p : Char → Bool)
    (read : String → List Char → Except ScanCause Token) : Piece where
  text := c :: cs.takeWhile p
  reading := read (String.ofList (c :: cs.takeWhile p)) (cs.dropWhile p)
  rest := cs.dropWhile p

/-- The piece of the single character `c`: a mark, or a character with no use. -/
def one (c : Char) (cs : List Char) : Piece where
  text := [c]
  reading :=
    match Mark.single? c with
    | some m => .ok (.mark m)
    | none => .error .invalidCharacter
  rest := cs

/-- The piece that starts at a mark: two characters if they are a mark together. -/
def mark (c : Char) : List Char → Piece
  | d :: rest =>
    match Mark.double? c d with
    | some m => { text := [c, d], reading := .ok (.mark m), rest := rest }
    | none => one c (d :: rest)
  | [] => one c []

/-- The first piece of the text `c :: cs`, where `c` is no blank. -/
def first (c : Char) (cs : List Char) : Piece :=
  if c.isLower then run c cs Char.isLower readWord
  else if c.isDigit then run c cs Char.isDigit readDigits
  else if c.isUpper then run c cs (fun d => d.isUpper || d.isDigit) readName
  else mark c cs

theorem text_append_rest_run (c : Char) (cs : List Char) (p : Char → Bool)
    (read : String → List Char → Except ScanCause Token) :
    (run c cs p read).text ++ (run c cs p read).rest = c :: cs := by
  simp [run, List.takeWhile_append_dropWhile]

theorem text_append_rest_mark (c : Char) (cs : List Char) :
    (mark c cs).text ++ (mark c cs).rest = c :: cs := by
  fun_cases mark c cs <;> simp [one]

/-- A piece and the text behind it are the text it was cut from. -/
theorem text_append_rest_first (c : Char) (cs : List Char) :
    (first c cs).text ++ (first c cs).rest = c :: cs := by
  unfold first
  split
  · exact text_append_rest_run ..
  split
  · exact text_append_rest_run ..
  split
  · exact text_append_rest_run ..
  · exact text_append_rest_mark ..

theorem text_first_ne_nil (c : Char) (cs : List Char) : (first c cs).text ≠ [] := by
  unfold first
  split
  · simp [run]
  split
  · simp [run]
  split
  · simp [run]
  · fun_cases mark c cs <;> simp [one]

theorem length_rest_first_lt (c : Char) (cs : List Char) :
    (first c cs).rest.length < (c :: cs).length := by
  rw [← text_append_rest_first c cs, List.length_append]
  have := List.length_pos_iff.2 (text_first_ne_nil c cs)
  omega

end Piece

/-- A place in a text: the characters ahead and the line they start on. -/
structure Scanner where
  rest : List Char
  line : Nat
deriving Repr, DecidableEq, Inhabited

namespace Scanner

def ofSource (source : String) : Scanner :=
  { rest := source.toList, line := 1 }

/-- Drops the blanks ahead and counts the lines they end. -/
def skipBlanks : List Char → Nat → Scanner
  | [], line => { rest := [], line := line }
  | c :: cs, line =>
    if isBlank c then skipBlanks cs (if c = '\n' then line + 1 else line)
    else { rest := c :: cs, line := line }

/-- The next token or fault, and the place behind it. At the end of the text the
token is the end itself, however often it is asked for. -/
def next (s : Scanner) : Except ScanFault Lexeme × Scanner :=
  let start := skipBlanks s.rest s.line
  match start.rest with
  | [] => (.ok { token := .eof, line := start.line }, start)
  | c :: cs =>
    let piece := Piece.first c cs
    let behind : Scanner := { rest := piece.rest, line := start.line }
    match piece.reading with
    | .ok token => (.ok { token := token, line := start.line }, behind)
    | .error cause =>
      (.error { cause := cause, text := String.ofList piece.text, line := start.line }, behind)

theorem length_rest_skipBlanks_le (cs : List Char) (line : Nat) :
    (skipBlanks cs line).rest.length ≤ cs.length := by
  fun_induction skipBlanks cs line with
  | case1 => simp
  | case2 line c cs blank ih => exact Nat.le_succ_of_le ih
  | case3 line c cs solid => simp

/-- Short of the end of the text, every call takes something off it. -/
theorem length_rest_next_lt {s : Scanner} {lexeme : Lexeme} {s' : Scanner}
    (h : s.next = (.ok lexeme, s')) (more : lexeme.token ≠ .eof) :
    s'.rest.length < s.rest.length := by
  have skipped := length_rest_skipBlanks_le s.rest s.line
  simp only [next] at h
  split at h
  · obtain ⟨rfl, rfl⟩ := by simpa using h
    exact absurd rfl more
  · next c cs ahead =>
    have shorter := Piece.length_rest_first_lt c cs
    split at h
    · obtain ⟨rfl, rfl⟩ := by simpa using h
      rw [ahead] at skipped
      exact Nat.lt_of_lt_of_le shorter skipped
    · simp at h

end Scanner

end CoreLang
