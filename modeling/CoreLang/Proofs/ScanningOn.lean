import CoreLang.Parse.Error
import CoreLang.Proofs.Tokenization

/-!
# Scanning past faults

A reader that is called again after a fault goes on behind it, so a whole text is taken
apart whether or not it can be read. A `Cut` is what one call takes: blanks, and behind them
the characters of a token or of a fault. Each call takes one character at least, hence the
end is reached; between the pieces there are blanks and nothing else, hence nothing is lost
and the lines come out right.
-/

namespace CoreLang

/-- Space, tab, line feed, carriage return, form feed and vertical tab. -/
def blankChars : List Char :=
  [' ', '\t', '\n', '\r', '\x0C', '\x0B']

theorem isBlank_iff {c : Char} : isBlank c = true ↔ c ∈ blankChars := by
  simp [isBlank, blankChars, or_assoc]

theorem isBlank_eq_false_iff {c : Char} : isBlank c = false ↔ c ∉ blankChars := by
  rw [← isBlank_iff, Bool.not_eq_true]

theorem all_isBlank_iff {chars : List Char} : chars.all isBlank = true ↔ chars ⊆ blankChars := by
  rw [List.all_eq_true]
  exact forall₂_congr fun _ _ => isBlank_iff

/-! ### Pieces -/

namespace Piece

variable {c : Char} {cs : List Char}

theorem isBlank_of_mem_run {p : Char → Bool} {read : String → List Char → Except ScanCause Token}
    (solid : isBlank c = false) (letters : ∀ d, p d = true → d.isAlphanum = true) :
    ∀ d ∈ (run c cs p read).text, isBlank d = false := by
  refine List.forall_mem_cons.2 ⟨solid, fun d hd => ?_⟩
  exact isBlank_of_isAlphanum (letters d (List.all_eq_true.1 List.all_takeWhile d hd))

theorem isBlank_of_mem_mark (solid : isBlank c = false) :
    ∀ d ∈ (mark c cs).text, isBlank d = false := by
  fun_cases mark c cs with
  | case1 d rest m found =>
    have spelled : m.text.toList = [c, d] := by
      unfold Mark.double? at found
      split at found <;> cases found <;> rfl
    have token : (Token.mark m).Spelled := trivial
    exact fun e he => token.isBlank_of_mem (spelled ▸ he)
  | case2 | case3 => simpa [one] using solid

/-- There is no blank in a piece. -/
theorem isBlank_of_mem_first (solid : isBlank c = false) :
    ∀ d ∈ (first c cs).text, isBlank d = false := by
  unfold first
  split
  · exact isBlank_of_mem_run solid fun d hd => by simp [isAlphanum_eq, hd]
  split
  · exact isBlank_of_mem_run solid fun d hd => by simp [isAlphanum_eq, hd]
  split
  · refine isBlank_of_mem_run solid fun d hd => ?_
    rcases Bool.or_eq_true _ _ ▸ hd with hd | hd <;> simp [isAlphanum_eq, hd]
  · exact isBlank_of_mem_mark solid

theorem readWord_ne_invalidCharacter (word : String) (rest : List Char) :
    readWord word rest ≠ .error .invalidCharacter := by
  fun_cases readWord word rest <;> nofun

theorem readDigits_ne_invalidCharacter (digits : String) (rest : List Char) :
    readDigits digits rest ≠ .error .invalidCharacter := by
  fun_cases readDigits digits rest <;> nofun

theorem readName_ne_invalidCharacter (name : String) (rest : List Char) :
    readName name rest ≠ .error .invalidCharacter := by
  fun_cases readName name rest <;> nofun

/-- A character without a use is a piece of its own. -/
theorem text_first_of_invalidCharacter
    (reading : (first c cs).reading = .error .invalidCharacter) : (first c cs).text = [c] := by
  unfold first at reading ⊢
  split at reading
  · exact absurd reading (readWord_ne_invalidCharacter _ _)
  split at reading
  · exact absurd reading (readDigits_ne_invalidCharacter _ _)
  split at reading
  · exact absurd reading (readName_ne_invalidCharacter _ _)
  · rw [if_neg ‹_›, if_neg ‹_›, if_neg ‹_›]
    revert reading
    fun_cases mark c cs with
    | case1 =>
      intro reading
      cases reading
    | case2 | case3 => exact fun _ => rfl

end Piece

/-! ### What one call takes -/

/-- Blanks, and a piece behind them with what it reads as. -/
structure Cut where
  gap : List Char
  text : List Char
  reading : Except ScanCause Token
  blank : gap ⊆ blankChars
  nonempty : text ≠ []
  solid : ∀ c ∈ text, c ∉ blankChars
  /-- A token is spelled by its piece. -/
  spells : ∀ token, reading = .ok token → token.Spelled ∧ token.text.toList = text
  /-- A character without a use stands alone. -/
  alone : reading = .error .invalidCharacter → text.length = 1

namespace Cut

def chars (c : Cut) : List Char :=
  c.gap ++ c.text

/-- The token or the fault of the piece, on a line. -/
def answer (c : Cut) (line : Nat) : Except ScanFault Lexeme :=
  match c.reading with
  | .ok token => .ok { token := token, line := line }
  | .error cause => .error { cause := cause, text := String.ofList c.text, line := line }

theorem answer_of_ok {c : Cut} {token : Token} (reading : c.reading = .ok token) (line : Nat) :
    c.answer line = .ok { token := token, line := line } := by
  rw [answer, reading]

theorem answer_of_error {c : Cut} {cause : ScanCause} (reading : c.reading = .error cause)
    (line : Nat) :
    c.answer line = .error { cause := cause, text := String.ofList c.text, line := line } := by
  rw [answer, reading]

/-- What is answered behind the text `before`, and the text that is left each time: every
piece on the line where it stands, and the end of the text behind `tail`. -/
def answers (tail before : List Char) : List Cut → List (Except ScanFault Lexeme × List Char)
  | [] => [(.ok { token := .eof, line := 1 + (before ++ tail).count '\n' }, [])]
  | c :: cuts =>
    (c.answer (1 + (before ++ c.gap).count '\n'), cuts.flatMap chars ++ tail) ::
      answers tail (before ++ c.chars) cuts

theorem count_chars (c : Cut) : c.chars.count '\n' = c.gap.count '\n' := by
  have none : c.text.count '\n' = 0 :=
    List.count_eq_zero.2 fun h => c.solid _ h (by decide)
  rw [chars, List.count_append, none, Nat.add_zero]

theorem length_chars_pos (c : Cut) : 0 < c.chars.length := by
  have := List.length_pos_iff.2 c.nonempty
  rw [chars, List.length_append]
  omega

theorem length_answers (tail before : List Char) (cuts : List Cut) :
    (answers tail before cuts).length = cuts.length + 1 := by
  induction cuts generalizing before with
  | nil => rfl
  | cons c cuts ih => simp [answers, ih]

theorem length_le (cuts : List Cut) : cuts.length ≤ (cuts.flatMap chars).length := by
  induction cuts with
  | nil => simp
  | cons c cuts ih =>
    have := c.length_chars_pos
    simp only [List.flatMap_cons, List.length_append, List.length_cons]
    omega

end Cut

/-- A call finds the end of the text behind blanks, or it takes a piece. -/
theorem Scanner.next_eq (s : Scanner) :
    (s.rest ⊆ blankChars ∧ s.next = (.ok { token := .eof, line := s.line + s.rest.count '\n' },
        ⟨[], s.line + s.rest.count '\n'⟩)) ∨
      ∃ (c : Cut) (rest : List Char), s.rest = c.chars ++ rest ∧
        s.next = (c.answer (s.line + c.gap.count '\n'), ⟨rest, s.line + c.gap.count '\n'⟩) := by
  have blank : (s.rest.takeWhile isBlank).all isBlank = true := List.all_takeWhile
  have solid : ∀ c, (s.rest.dropWhile isBlank).head? = some c → isBlank c = false := by
    intro c ahead
    have := List.head?_dropWhile_not isBlank s.rest
    rwa [ahead] at this
  have whole := List.takeWhile_append_dropWhile (p := isBlank) (l := s.rest)
  have skipped := skipBlanks_append _ _ s.line blank solid
  rw [whole] at skipped
  cases ahead : s.rest.dropWhile isBlank with
  | nil =>
    rw [ahead, List.append_nil] at whole
    rw [whole] at blank
    exact .inl ⟨all_isBlank_iff.1 blank, next_blanks blank s.line⟩
  | cons c cs =>
    rw [ahead] at whole skipped
    let cut : Cut :=
      { gap := s.rest.takeWhile isBlank
        text := (Piece.first c cs).text
        reading := (Piece.first c cs).reading
        blank := all_isBlank_iff.1 blank
        nonempty := Piece.text_first_ne_nil c cs
        solid := fun d hd => isBlank_eq_false_iff.1
          (Piece.isBlank_of_mem_first (solid c (by rw [ahead]; rfl)) d hd)
        spells := fun token reading =>
          have read := Piece.isToken_of_reading reading
          ⟨read.spelled, read.text_eq.symm⟩
        alone := fun reading => by rw [Piece.text_first_of_invalidCharacter reading]; rfl }
    refine .inr ⟨cut, (Piece.first c cs).rest, ?_, ?_⟩
    · rw [Cut.chars, List.append_assoc, Piece.text_append_rest_first, whole]
    · rw [next, skipped, Cut.answer]
      cases reading : (Piece.first c cs).reading <;> simp [cut, reading]

/-! ### One call after the other -/

namespace TokenReader

/-- Called until it stands on the end of the text, the reader answers so. Next to each answer
is the text that the call leaves. A call that fails leaves the reader on its token. -/
inductive Drains : TokenReader → List (Except ScanFault Lexeme × List Char) → Prop where
  | ended {r : TokenReader} (last : r.current.token = .eof) : Drains r []
  | token {r r' : TokenReader} {others : List (Except ScanFault Lexeme × List Char)}
      (more : r.current.token ≠ .eof) (call : r.advance = (.ok (), r')) (later : Drains r' others) :
    Drains r ((.ok r'.current, r'.scanner.rest) :: others)
  | fault {r r' : TokenReader} {fault : ScanFault}
      {others : List (Except ScanFault Lexeme × List Char)} (more : r.current.token ≠ .eof)
      (call : r.advance = (.error fault, r')) (kept : r'.current = r.current)
      (later : Drains r' others) :
    Drains r ((.error fault, r'.scanner.rest) :: others)

variable {r : TokenReader} {behind : Scanner}

theorem advance_of_next_ok {lexeme : Lexeme} (more : r.current.token ≠ .eof)
    (found : r.scanner.next = (.ok lexeme, behind)) :
    r.advance = (.ok (), { r with scanner := behind, current := lexeme }) := by
  rw [advance, if_neg more, found]

theorem advance_of_next_error {fault : ScanFault} (more : r.current.token ≠ .eof)
    (found : r.scanner.next = (.error fault, behind)) :
    r.advance = (.error fault, { r with scanner := behind }) := by
  rw [advance, if_neg more, found]

/-- One call: the reader takes a piece, and the answers to the calls that follow come after
that to this one. -/
theorem exists_drains_cons {c : Cut} {rest : List Char} {line : Nat}
    (more : r.current.token ≠ .eof) (found : r.scanner.next = (c.answer line, ⟨rest, line⟩)) :
    ∃ r' : TokenReader, r'.scanner = ⟨rest, line⟩ ∧ r'.current.token ≠ .eof ∧
      ∀ others, r'.Drains others → r.Drains ((c.answer line, rest) :: others) := by
  cases reading : c.reading with
  | ok token =>
    have inside : token ≠ .eof := by
      rintro rfl
      exact (c.spells _ reading).1
    rw [Cut.answer_of_ok reading] at found ⊢
    exact ⟨_, rfl, inside, fun others later => .token more (advance_of_next_ok more found) later⟩
  | error cause =>
    rw [Cut.answer_of_error reading] at found ⊢
    refine ⟨{ r with scanner := ⟨rest, line⟩ }, rfl, more, fun others later => ?_⟩
    exact .fault more (advance_of_next_error more found) rfl later

/-- The text ahead of a reader is taken apart by calling it. -/
theorem exists_drains (r : TokenReader) (before : List Char) (more : r.current.token ≠ .eof)
    (line : r.scanner.line = 1 + before.count '\n') :
    ∃ (cuts : List Cut) (tail : List Char), tail ⊆ blankChars ∧
      cuts.flatMap Cut.chars ++ tail = r.scanner.rest ∧
      r.Drains (Cut.answers tail before cuts) := by
  induction length : r.scanner.rest.length using Nat.strongRecOn generalizing r before with
  | ind n ih =>
    subst length
    rcases r.scanner.next_eq with ⟨blank, found⟩ | ⟨c, rest, text, found⟩
    · refine ⟨[], r.scanner.rest, blank, rfl, ?_⟩
      rw [line, Nat.add_assoc, ← List.count_append] at found
      exact .token more (advance_of_next_ok more found) (.ended rfl)
    · rw [line, Nat.add_assoc, ← List.count_append] at found
      obtain ⟨r', behind, more', first⟩ := exists_drains_cons more found
      have shorter : r'.scanner.rest.length < r.scanner.rest.length := by
        have := c.length_chars_pos
        simp only [behind, text, List.length_append]
        omega
      have line' : r'.scanner.line = 1 + (before ++ c.chars).count '\n' := by
        rw [behind, List.count_append, List.count_append, c.count_chars]
      obtain ⟨cuts, tail, blank, whole, later⟩ := ih _ shorter r' _ more' line' rfl
      rw [behind] at whole
      refine ⟨c :: cuts, tail, blank, ?_, ?_⟩
      · rw [List.flatMap_cons, List.append_assoc, whole, text]
      · rw [Cut.answers, whole]
        exact first _ later

end TokenReader

/-! ### Faults that are reported -/

/-- The text and the line that are blamed for a piece that is no token. -/
def ParseError.offence? : ParseError → Option (String × Nat)
  | .invalidCharacter char line => some (String.singleton char, line)
  | .invalidToken token line
  | .whitespaceRequired token line
  | .literalTooLarge token line => some (token, line)
  | _ => none

theorem ParseError.offence?_ofScan {fault : ScanFault}
    (alone : fault.cause = .invalidCharacter → fault.text.toList.length = 1) :
    (ofScan fault).offence? = some (fault.text, fault.line) := by
  obtain ⟨cause, text, line⟩ := fault
  cases cause with
  | invalidToken | whitespaceRequired | literalTooLarge => rfl
  | invalidCharacter =>
    obtain ⟨c, single⟩ := List.length_eq_one_iff.1 (alone rfl)
    simp only [ofScan, single]
    split
    · rfl
    · simp only [offence?, Option.some.injEq, Prod.mk.injEq, and_true]
      rw [← String.toList_inj, single, String.toList_singleton]

theorem Cut.offence?_of_answer {c : Cut} {line : Nat} {fault : ScanFault}
    (answer : c.answer line = .error fault) :
    (ParseError.ofScan fault).offence? = some (String.ofList c.text, line) := by
  unfold Cut.answer at answer
  split at answer
  · cases answer
  · next cause reading =>
    cases answer
    refine ParseError.offence?_ofScan ?_
    rintro rfl
    rw [String.toList_ofList]
    exact c.alone reading

/-- A reader on the first token of a text goes through the whole text, past every fault. What
the calls take are pieces of the text, one behind the other, with blanks around them; each is
answered on the line where it stands, and a fault is blamed on its piece. The end is reached
with at most one call for each character and one more, on the line behind all others. -/
theorem ofSource?_drains {source : String} {r : TokenReader}
    (opened : TokenReader.ofSource? source = .ok r) :
    ∃ (cuts : List Cut) (tail : List Char) (others : List (Except ScanFault Lexeme × List Char)),
      tail ⊆ blankChars ∧ cuts.flatMap Cut.chars ++ tail = source.toList ∧ r.Drains others ∧
      (.ok r.current, r.scanner.rest) :: others = Cut.answers tail [] cuts ∧
      others.length + 1 ≤ source.length + 1 ∧
      ∀ c ∈ cuts, ∀ line fault, c.answer line = .error fault →
        (ParseError.ofScan fault).offence? = some (String.ofList c.text, line) := by
  -- Opening the text is the same as a call in front of its first token.
  let front : TokenReader := { scanner := .ofSource source, current := ⟨.mark .semicolon, 1⟩ }
  have more : front.current.token ≠ .eof := nofun
  obtain ⟨cuts, tail, blank, text, drained⟩ := front.exists_drains [] more rfl
  change _ = source.toList at text
  have first : front.advance = (.ok (), r) := by
    unfold TokenReader.ofSource? at opened
    split at opened
    · next lexeme behind found =>
      cases opened
      exact TokenReader.advance_of_next_ok more found
    · cases opened
  obtain ⟨others, later, answers⟩ : ∃ others, r.Drains others ∧
      Cut.answers tail [] cuts = (.ok r.current, r.scanner.rest) :: others := by
    generalize Cut.answers tail [] cuts = answers at drained
    cases drained with
    | ended last => exact absurd last more
    | token _ call later =>
      rw [first] at call
      cases call
      exact ⟨_, later, rfl⟩
    | fault _ call =>
      rw [first] at call
      cases call
  have length : others.length + 1 = cuts.length + 1 := by
    rw [← Cut.length_answers tail [] cuts, answers, List.length_cons]
  have bound : cuts.length ≤ source.length := by
    have := Cut.length_le cuts
    rw [← String.length_toList, ← text, List.length_append]
    omega
  exact ⟨cuts, tail, others, blank, text, later, answers.symm, by omega,
    fun c _ line fault answer => c.offence?_of_answer answer⟩

/-- The digits run into a letter: they are a fault, and the letter is the next one. -/
theorem ofSource?_drains_past_digits :
    let r : TokenReader :=
      { scanner := ⟨" 12b\n@ ;".toList, 1⟩, current := ⟨.identifier "A", 1⟩ }
    TokenReader.ofSource? "A 12b\n@ ;" = .ok r ∧
      ∃ (cuts : List Cut) (tail : List Char) (others : List (Except ScanFault Lexeme × List Char)),
        cuts.flatMap Cut.chars ++ tail = "A 12b\n@ ;".toList ∧ r.Drains others ∧
        (.ok r.current, r.scanner.rest) :: others = Cut.answers tail [] cuts ∧
        others.head? = some (.error ⟨.whitespaceRequired, "12", 1⟩, "b\n@ ;".toList) := by
  intro r
  have opened : TokenReader.ofSource? "A 12b\n@ ;" = .ok r := by rfl
  obtain ⟨cuts, tail, others, -, text, drained, answers, -, -⟩ := ofSource?_drains opened
  refine ⟨opened, cuts, tail, others, text, drained, answers, ?_⟩
  have call : r.advance =
      (.error ⟨.whitespaceRequired, "12", 1⟩, { r with scanner := ⟨"b\n@ ;".toList, 1⟩ }) := by rfl
  cases drained with
  | ended last => cases last
  | token _ stepped =>
    rw [call] at stepped
    cases stepped
  | fault _ stepped =>
    rw [call] at stepped
    cases stepped
    rfl

end CoreLang
