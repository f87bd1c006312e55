import Mathlib.Data.List.DropRight
import CoreLang.Run.Data

/-!
# The tokens of a data stream

A stream reads its bytes a line at a time and keeps the tokens of a line until they are
asked for. None of this can be seen from outside: a stream is the list of the tokens still
ahead of it (`DataStream.tokens`), and asking for one takes the first (`nextToken_eq`).
-/

namespace CoreLang

/-! ### Tokens of bytes -/

theorem dataTokens_of_blanks {bytes : List UInt8} (h : bytes.dropWhile isDataBlank = []) :
    dataTokens bytes = [] := by
  rw [dataTokens]
  split
  · rfl
  · next found => simp [h] at found

@[simp]
theorem dataTokens_nil : dataTokens [] = [] :=
  dataTokens_of_blanks rfl

theorem dataTokens_of_start {bytes rest : List UInt8} {b : UInt8}
    (h : bytes.dropWhile isDataBlank = b :: rest) :
    dataTokens bytes = (b :: rest.takeWhile fun x => !isDataBlank x)
      :: dataTokens (rest.dropWhile fun x => !isDataBlank x) := by
  rw [dataTokens]
  split
  · next found => simp [h] at found
  · next found =>
    obtain ⟨rfl, rfl⟩ := List.cons.inj (h.symm.trans found)
    rfl

theorem dataTokens_dropWhile (bytes : List UInt8) :
    dataTokens (bytes.dropWhile isDataBlank) = dataTokens bytes := by
  have same := List.dropWhile_idempotent isDataBlank bytes
  cases h : bytes.dropWhile isDataBlank with
  | nil => rw [dataTokens_of_blanks h, dataTokens_of_blanks rfl]
  | cons b rest =>
    rw [h] at same
    rw [dataTokens_of_start h, dataTokens_of_start same]

/-- A run without blanks ends at a blank, whatever follows it. -/
theorem cut_at_blank {blank : UInt8} (isBlank : isDataBlank blank = true)
    (front back : List UInt8) :
    (front ++ blank :: back).takeWhile (fun x => !isDataBlank x) =
        front.takeWhile (fun x => !isDataBlank x) ∧
      (front ++ blank :: back).dropWhile (fun x => !isDataBlank x) =
        front.dropWhile (fun x => !isDataBlank x) ++ blank :: back := by
  induction front with
  | nil => simp [isBlank]
  | cons b front ih => cases h : isDataBlank b <;> simp [h, ih]

/-- No token reaches over a blank. -/
theorem dataTokens_append {blank : UInt8} (isBlank : isDataBlank blank = true)
    (front back : List UInt8) :
    dataTokens (front ++ blank :: back) = dataTokens front ++ dataTokens back := by
  fun_induction dataTokens front with
  | case1 front blanks =>
    rw [← dataTokens_dropWhile, List.dropWhile_append, blanks]
    simp [isBlank, dataTokens_dropWhile]
  | case2 front b rest start shorter ih =>
    have start' : (front ++ blank :: back).dropWhile isDataBlank = b :: (rest ++ blank :: back) := by
      simp [List.dropWhile_append, start]
    obtain ⟨token, behind⟩ := cut_at_blank isBlank rest back
    rw [dataTokens_of_start start', token, behind, ih, List.cons_append]

/-! ### Lines -/

/-- The bytes up to and including the last line feed. -/
def completeLines : List UInt8 → List UInt8
  | [] => []
  | b :: rest => if 0x0A ∈ b :: rest then b :: completeLines rest else []

theorem completeLines_append (front back : List UInt8) :
    completeLines (front ++ 0x0A :: back) = front ++ 0x0A :: completeLines back := by
  induction front with
  | nil => simp [completeLines]
  | cons b front ih => simp [completeLines, ih]

theorem completeLines_eq_nil {bytes : List UInt8} (h : 0x0A ∉ bytes) :
    completeLines bytes = [] := by
  cases bytes with
  | nil => rfl
  | cons b rest => exact if_neg h

/-- The bytes that come to be read: a reader that fails loses the line it is in. -/
def readableBytes (bytes : List UInt8) : (failure : Option String) → List UInt8
  | none => bytes
  | some _ => completeLines bytes

theorem readableBytes_append (front back : List UInt8) (failure : Option String) :
    readableBytes (front ++ 0x0A :: back) failure = front ++ 0x0A :: readableBytes back failure := by
  cases failure with
  | none => rfl
  | some reason => exact completeLines_append front back

namespace LineRead

variable {bytes line rest : List UInt8} {failure : Option String} {reason : String}

/-- The tokens of a line come first, then those of the bytes behind it. -/
theorem dataTokens_line (h : ofBytes bytes failure = .line line rest) :
    dataTokens (readableBytes bytes failure) =
      dataTokens line ++ dataTokens (readableBytes rest failure) := by
  unfold ofBytes at h
  split at h
  · next lineFeed behind ahead =>
    obtain ⟨rfl, rfl⟩ := LineRead.line.inj h
    have stop := List.head?_dropWhile_not (· ≠ (0x0A : UInt8)) bytes
    rw [ahead] at stop
    obtain rfl : lineFeed = 0x0A := by simpa using stop
    have feed : isDataBlank 0x0A = true := by decide
    have whole := List.takeWhile_append_dropWhile (p := (· ≠ (0x0A : UInt8))) (l := bytes)
    rw [ahead] at whole
    rw [dataTokens_append feed _ [], dataTokens_nil, List.append_nil]
    nth_rewrite 1 [← whole]
    rw [readableBytes_append, dataTokens_append feed]
  · cases failure with
    | some reason => cases h
    | none =>
      dsimp only at h
      split at h
      · cases h
      · obtain ⟨rfl, rfl⟩ := LineRead.line.inj h
        simp [readableBytes]

theorem eq_of_ended (h : ofBytes bytes failure = .ended) : bytes = [] ∧ failure = none := by
  unfold ofBytes at h
  split at h
  · cases h
  · cases failure with
    | some reason => cases h
    | none =>
      dsimp only at h
      split at h
      · next empty => exact ⟨empty, rfl⟩
      · cases h

theorem eq_of_failed (h : ofBytes bytes failure = .failed reason) :
    0x0A ∉ bytes ∧ failure = some reason := by
  unfold ofBytes at h
  split at h
  · cases h
  · next unbroken =>
    cases failure with
    | some reason =>
      obtain rfl := LineRead.failed.inj h
      have others := List.dropWhile_eq_nil_iff.1 unbroken
      exact ⟨fun feed => by simpa using others _ feed, rfl⟩
    | none =>
      dsimp only at h
      split at h <;> cases h

end LineRead

/-! ### Streams -/

namespace DataStream

/-- The tokens still ahead. -/
def tokens (d : DataStream) : List (List UInt8) :=
  d.pending ++ dataTokens (readableBytes d.unread d.failure)

/-- What the next request is answered. -/
def answer (d : DataStream) : Except String (Option (List UInt8)) :=
  match d.tokens.head?, d.failure with
  | some token, _ => .ok (some token)
  | none, some reason => .error reason
  | none, none => .ok none

/-- A request takes the first token; when none is left, a stream that fails says so every
time. -/
theorem nextToken_eq (d : DataStream) :
    ∃ d', d.nextToken = (d.answer, d') ∧ d'.tokens = d.tokens.tail ∧ d'.failure = d.failure := by
  fun_induction nextToken d with
  | case1 d token others waiting =>
    refine ⟨{ d with pending := others }, ?_, ?_, rfl⟩
    · simp [answer, tokens, waiting]
    · simp [tokens, waiting]
  | case2 d empty reason failed =>
    obtain ⟨unbroken, failing⟩ := LineRead.eq_of_failed failed
    have none_left : d.tokens = [] := by
      simp [tokens, empty, failing, readableBytes, completeLines_eq_nil unbroken]
    refine ⟨{ d with unread := [] }, ?_, ?_, rfl⟩
    · simp [answer, none_left, failing]
    · rw [none_left]
      simp [tokens, empty, failing, readableBytes, completeLines]
  | case3 d empty ended =>
    obtain ⟨all_read, steady⟩ := LineRead.eq_of_ended ended
    have none_left : d.tokens = [] := by
      simp [tokens, empty, all_read, steady, readableBytes]
    exact ⟨d, by simp [answer, none_left, steady], by simp [none_left], rfl⟩
  | case4 d empty line rest read shorter ih =>
    have same : ({ d with pending := dataTokens line, unread := rest } : DataStream).tokens =
        d.tokens := by
      simp [tokens, empty, LineRead.dataTokens_line read]
    obtain ⟨d', answered, left, failing⟩ := ih
    refine ⟨d', ?_, ?_, failing⟩
    · rw [answered]
      simp only [answer, same]
    · rw [left, same]

/-- What a request for a value is answered, made on a line of the program. -/
def valueAnswer (d : DataStream) (line : Nat) : Except RuntimeError Int64 :=
  match d.answer with
  | .error reason => .error (.io reason line)
  | .ok none => .error (.inputExhausted line)
  | .ok (some token) =>
    match Number.parse? (Text.Utf8.decodeLossy token) with
    | some v => .ok v
    | none => .error (.inputNotInteger (Text.Utf8.decodeLossy token) line)

/-- A request for a value takes the first token, be it a value or not. -/
theorem next_eq (d : DataStream) (line : Nat) :
    ∃ d', d.next line = (d.valueAnswer line, d') ∧ d'.tokens = d.tokens.tail ∧
      d'.failure = d.failure := by
  obtain ⟨d', answered, left, failing⟩ := d.nextToken_eq
  refine ⟨d', ?_, left, failing⟩
  unfold next valueAnswer
  rw [answered]
  cases d.answer with
  | error reason => rfl
  | ok token? =>
    cases token? with
    | none => rfl
    | some token => cases h : Number.parse? (Text.Utf8.decodeLossy token) <;> simp [h]

theorem answer_congr {d d' : DataStream} (first : d.tokens.head? = d'.tokens.head?)
    (failing : d.failure = d'.failure) : d.answer = d'.answer := by
  unfold answer
  rw [first, failing]

end DataStream

end CoreLang
