import CoreLang.Run.Error
import CoreLang.Text.Utf8

/-!
# The data of a run

Data is a stream of bytes, read a line at a time and cut into tokens at blanks.
The reader may fail instead of ending; a line it was in the middle of is lost
then, and every later attempt fails again.
-/

namespace CoreLang

/-- The bytes between tokens: space, tab, line feed, form feed, carriage return. -/
def isDataBlank (b : UInt8) : Bool :=
  b = 0x20 || b = 0x09 || b = 0x0A || b = 0x0C || b = 0x0D

/-- The tokens of some bytes: the longest runs without a blank. -/
def dataTokens (bytes : List UInt8) : List (List UInt8) :=
  match h : bytes.dropWhile isDataBlank with
  | [] => []
  | b :: rest =>
    have : (rest.dropWhile fun x => !isDataBlank x).length < bytes.length := by
      have tail := (List.dropWhile_suffix (l := rest) fun x => !isDataBlank x).length_le
      have all := (List.dropWhile_suffix (l := bytes) isDataBlank).length_le
      rw [h, List.length_cons] at all
      omega
    (b :: rest.takeWhile fun x => !isDataBlank x)
      :: dataTokens (rest.dropWhile fun x => !isDataBlank x)
termination_by bytes.length

/-- What an attempt to read a line comes to. -/
inductive LineRead where
  | line (bytes rest : List UInt8)
  | ended
  | failed (reason : String)

/-- Reads up to and including the next line feed; the last line may lack it. A
reader that fails does so where it would otherwise end. -/
def LineRead.ofBytes (bytes : List UInt8) (failure : Option String) : LineRead :=
  match bytes.dropWhile (· ≠ 0x0A) with
  | lineFeed :: rest => .line (bytes.takeWhile (· ≠ 0x0A) ++ [lineFeed]) rest
  | [] =>
    match failure with
    | some reason => .failed reason
    | none => if bytes = [] then .ended else .line bytes []

theorem LineRead.length_rest_lt {bytes line rest : List UInt8} {failure : Option String}
    (h : LineRead.ofBytes bytes failure = .line line rest) : rest.length < bytes.length := by
  unfold LineRead.ofBytes at h
  split at h
  · next lineFeed rest' ahead =>
    have := (List.dropWhile_suffix (l := bytes) (· ≠ (0x0A : UInt8))).length_le
    rw [ahead, List.length_cons] at this
    cases h
    omega
  · split at h
    · cases h
    · split at h
      · cases h
      · next nonempty =>
        cases h
        exact List.length_pos_iff.2 nonempty

structure DataStream where
  /-- Tokens of the line read last that were not asked for yet. -/
  pending : List (List UInt8)
  /-- The bytes of the lines not read yet. -/
  unread : List UInt8
  /-- Why the reader fails behind the bytes, if it does. -/
  failure : Option String
deriving Repr, DecidableEq, Inhabited

namespace DataStream

def ofBytes (bytes : List UInt8) (failure : Option String) : DataStream :=
  { pending := [], unread := bytes, failure := failure }

/-- The next token, `none` behind the last one. -/
def nextToken (d : DataStream) : Except String (Option (List UInt8)) × DataStream :=
  match d.pending with
  | token :: others => (.ok (some token), { d with pending := others })
  | [] =>
    match h : LineRead.ofBytes d.unread d.failure with
    | .failed reason => (.error reason, { d with unread := [] })
    | .ended => (.ok none, d)
    | .line bytes rest =>
      have := LineRead.length_rest_lt h
      nextToken { d with pending := dataTokens bytes, unread := rest }
termination_by d.unread.length

/-- The next value, asked for on a line of the program. A token that is no value is
used up all the same. -/
def next (d : DataStream) (line : Nat) : Except RuntimeError Int64 × DataStream :=
  match d.nextToken with
  | (.error reason, d') => (.error (.io reason line), d')
  | (.ok none, d') => (.error (.inputExhausted line), d')
  | (.ok (some token), d') =>
    let text := Text.Utf8.decodeLossy token
    match Number.parse? text with
    | some v => (.ok v, d')
    | none => (.error (.inputNotInteger text line), d')

end DataStream

end CoreLang
