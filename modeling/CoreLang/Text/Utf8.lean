/-!
# Text as bytes

Encoding is core's. Decoding reads any byte list as a list of pieces, each a
character or a malformed run: the longest start of a character that the bytes do
not complete, or one byte that starts none. The strict and the lossy reading
both come from that list, so they agree wherever the bytes are well formed.
-/

namespace CoreLang.Text.Utf8

/-- The bytes of a text. -/
def encode (s : String) : List UInt8 :=
  s.toList.flatMap String.utf8EncodeChar

/-- A byte that continues a character. -/
def isContinuation (b : UInt8) : Bool :=
  0x80 ≤ b && b ≤ 0xBF

/-- The second bytes that a first byte of a three-byte character admits: no
overlong form, no surrogate. -/
def isSecondOfThree (first second : UInt8) : Bool :=
  if first = 0xE0 then 0xA0 ≤ second && second ≤ 0xBF
  else if first = 0xED then 0x80 ≤ second && second ≤ 0x9F
  else isContinuation second

/-- The second bytes that a first byte of a four-byte character admits: no
overlong form, nothing past `U+10FFFF`. -/
def isSecondOfFour (first second : UInt8) : Bool :=
  if first = 0xF0 then 0x90 ≤ second && second ≤ 0xBF
  else if first = 0xF4 then 0x80 ≤ second && second ≤ 0x8F
  else isContinuation second

/-- The six payload bits of a continuation byte. -/
def payload (b : UInt8) : Nat :=
  b.toNat % 0x40

/-- Reads one piece of `first :: rest`: the character, or `none` for a malformed
run, and the bytes after it. -/
def piece (first : UInt8) (rest : List UInt8) : Option Char × List UInt8 :=
  if first < 0x80 then (some (Char.ofNat first.toNat), rest)
  else if 0xC2 ≤ first && first ≤ 0xDF then
    match rest with
    | b :: rest' =>
      if isContinuation b then
        (some (Char.ofNat (first.toNat % 0x20 * 0x40 + payload b)), rest')
      else (none, rest)
    | [] => (none, [])
  else if 0xE0 ≤ first && first ≤ 0xEF then
    match rest with
    | b :: rest' =>
      if isSecondOfThree first b then
        match rest' with
        | c :: rest'' =>
          if isContinuation c then
            (some (Char.ofNat (first.toNat % 0x10 * 0x1000 + payload b * 0x40 + payload c)), rest'')
          else (none, rest')
        | [] => (none, [])
      else (none, rest)
    | [] => (none, [])
  else if 0xF0 ≤ first && first ≤ 0xF4 then
    match rest with
    | b :: rest' =>
      if isSecondOfFour first b then
        match rest' with
        | c :: rest'' =>
          if isContinuation c then
            match rest'' with
            | d :: rest''' =>
              if isContinuation d then
                (some (Char.ofNat (first.toNat % 0x08 * 0x40000 + payload b * 0x1000
                  + payload c * 0x40 + payload d)), rest''')
              else (none, rest'')
            | [] => (none, [])
          else (none, rest')
        | [] => (none, [])
      else (none, rest)
    | [] => (none, [])
  else (none, rest)

theorem length_piece_le (first : UInt8) (rest : List UInt8) :
    (piece first rest).2.length ≤ rest.length := by
  fun_cases piece first rest <;> simp_all <;> omega

/-- The pieces of a byte list, in order. -/
def pieces : List UInt8 → List (Option Char)
  | [] => []
  | first :: rest =>
    (piece first rest).1 :: pieces (piece first rest).2
termination_by bytes => bytes.length
decreasing_by exact Nat.lt_succ_of_le (length_piece_le first rest)

/-- The text of well-formed bytes. -/
def decode? (bytes : List UInt8) : Option String :=
  ((pieces bytes).mapM id).map String.ofList

/-- The text of any bytes: each malformed run is shown as `U+FFFD`. -/
def decodeLossy (bytes : List UInt8) : String :=
  String.ofList ((pieces bytes).map (·.getD '\uFFFD'))

end CoreLang.Text.Utf8
