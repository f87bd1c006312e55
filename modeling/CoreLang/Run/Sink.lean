import CoreLang.Text.Utf8

/-!
# The output of a run

A `Sink` keeps the bytes written to it. It may have room for so many bytes only:
then it takes what fits and refuses the rest. It may also refuse to be flushed.
-/

namespace CoreLang

structure Sink where
  written : Array UInt8 := #[]
  /-- How many more bytes fit; `none` if any number does. -/
  room : Option Nat := none
  flushFails : Bool := false
  /-- The reason given for a refusal. -/
  refusal : String := ""
deriving Repr, DecidableEq, Inhabited

namespace Sink

/-- Writes bytes, as many as fit. -/
def write (s : Sink) (bytes : List UInt8) : Except String Unit × Sink :=
  match s.room with
  | none => (.ok (), { s with written := s.written ++ bytes })
  | some room =>
    let after :=
      { s with written := s.written ++ bytes.take room, room := some (room - bytes.length) }
    if bytes.length ≤ room then (.ok (), after) else (.error s.refusal, after)

/-- What a sink holds after a write: the bytes before, then as many as it has room for. -/
theorem toList_written_write (s : Sink) (bytes : List UInt8) :
    (s.write bytes).2.written.toList =
      s.written.toList ++ bytes.take (s.room.getD bytes.length) := by
  unfold write
  split
  · next h => simp [h]
  · next room h =>
    dsimp only
    split <;> simp [h]

/-- Writes a text. -/
def writeText (s : Sink) (text : String) : Except String Unit × Sink :=
  s.write (Text.Utf8.encode text)

def flush (s : Sink) : Except String Unit :=
  if s.flushFails then .error s.refusal else .ok ()

/-- The bytes written, read as text. -/
def text (s : Sink) : String :=
  Text.Utf8.decodeLossy s.written.toList

end Sink

end CoreLang
