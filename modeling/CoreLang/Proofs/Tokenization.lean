import Mathlib.Data.List.Chain
import CoreLang.Proofs.Scanning
import CoreLang.Token.Reader

/-!
# Texts that are scanned to their end

A `Tokenization` takes a text apart into tokens and the blanks around them. Which tokens
need a blank between them is told by the tokens alone (`Token.RunsInto`); a scanner looks
at one character behind a token (`Token.EndsBefore`). The two agree
(`Spaced.endsBefore_iff`), so a text is scanned to its end exactly if it has a
tokenization, and the tokens found are those of the tokenization, on the lines where they
stand.
-/

namespace CoreLang

/-! ### Tokens side by side -/

/-- A sign of one character is part of a longer one in front of a `=`, if it is one of four. -/
theorem Mark.double?_eq_none_iff {sign : Mark} {c d : Char} (single : sign.text.toList = [c]) :
    double? c d = none ↔ (sign ∈ [bang, assign, less, greater] → d ≠ '=') := by
  cases sign <;> simp [text] at single <;> subst single <;> by_cases equals : d = '=' <;>
    simp [double?, equals]

namespace Token

/-- Keywords, literals and identifiers. -/
def isWord : Token → Bool
  | .keyword _ | .integer _ | .identifier _ => true
  | .mark _ | .eof => false

/-- With nothing between them, the two tokens would be read as something else. -/
def RunsInto (a b : Token) : Prop :=
  (a.isWord ∧ b.isWord) ∨
    (a ∈ [mark .bang, mark .assign, mark .less, mark .greater] ∧ b ∈ [mark .assign, mark .equal])

variable {t : Token} {rest : List Char}

theorem endsBefore_iff_of_isWord (word : t.isWord = true) :
    t.EndsBefore rest ↔ isCutOff rest = true := by
  cases t with
  | keyword | integer | identifier => rfl
  | mark | eof => cases word

theorem endsBefore_mark_iff {sign : Mark} :
    (mark sign).EndsBefore rest ↔
      (sign ∈ [Mark.bang, .assign, .less, .greater] → rest.head? ≠ some '=') := by
  constructor
  · intro ends risky equals
    obtain ⟨c, single⟩ : ∃ c, sign.text.toList = [c] := by
      simp only [List.mem_cons, List.not_mem_nil, or_false] at risky
      rcases risky with rfl | rfl | rfl | rfl <;> exact ⟨_, rfl⟩
    exact (Mark.double?_eq_none_iff single).1 (ends c '=' single equals) risky rfl
  · intro apart c d single ahead
    exact (Mark.double?_eq_none_iff single).2 fun risky equals => apart risky (equals ▸ ahead)

/-- The characters of a word are letters and digits. -/
theorem Spelled.isAlphanum_of_mem (spelled : t.Spelled) (word : t.isWord = true) {c : Char}
    (h : c ∈ t.text.toList) : c.isAlphanum = true := by
  cases t with
  | keyword k =>
    have letters : k.text.toList.all Char.isAlphanum = true := by cases k <;> decide
    exact List.all_eq_true.1 letters c h
  | integer digits => simp [isAlphanum_eq, List.all_eq_true.1 spelled.2.1 c h]
  | identifier name =>
    have h : c ∈ name.toList.takeWhile Char.isUpper ++ name.toList.dropWhile Char.isUpper := by
      rwa [List.takeWhile_append_dropWhile]
    rcases List.mem_append.1 h with h | h
    · simp [isAlphanum_eq, List.all_eq_true.1 List.all_takeWhile c h]
    · simp [isAlphanum_eq, List.all_eq_true.1 spelled.2 c h]
  | mark | eof => cases word

/-- There is no blank in a token. -/
theorem Spelled.isBlank_of_mem (spelled : t.Spelled) {c : Char} (h : c ∈ t.text.toList) :
    isBlank c = false := by
  cases t with
  | mark sign =>
    have solid : sign.text.toList.all (fun c => !isBlank c) = true := by cases sign <;> decide
    simpa using List.all_eq_true.1 solid c h
  | keyword | integer | identifier => exact isBlank_of_isAlphanum (spelled.isAlphanum_of_mem rfl h)
  | eof => exact spelled.elim

theorem Spelled.text_ne_nil (spelled : t.Spelled) : t.text.toList ≠ [] := by
  cases t with
  | keyword k => cases k <;> decide
  | mark sign => cases sign <;> decide
  | integer digits => exact spelled.1
  | identifier name =>
    obtain ⟨⟨c, cs, starts, _⟩, _⟩ := spelled
    simp [text, starts]
  | eof => exact spelled.elim

/-- The first character of a token tells what cannot stand right before it: a word, or one
of the signs that a `=` makes longer. -/
theorem Spelled.exists_head (spelled : t.Spelled) : ∃ c cs, t.text.toList = c :: cs ∧
    (isSeparator c = true ↔ t.isWord = false) ∧ (c = '=' ↔ t ∈ [mark .assign, mark .equal]) := by
  cases word : t.isWord with
  | false =>
    cases t with
    | mark sign => cases sign <;> exact ⟨_, _, rfl, by decide, by decide⟩
    | eof => exact spelled.elim
    | keyword | integer | identifier => cases word
  | true =>
    obtain ⟨c, cs, starts⟩ := List.exists_cons_of_ne_nil spelled.text_ne_nil
    have letter : c.isAlphanum = true :=
      spelled.isAlphanum_of_mem word (starts ▸ List.mem_cons_self)
    refine ⟨c, cs, starts, ⟨fun separates => ?_, nofun⟩, fun equals => ?_, fun sign => ?_⟩
    · simp [isAlphanum_of_isSeparator separates] at letter
    · subst equals
      exact absurd letter (by decide)
    · simp only [List.mem_cons, List.not_mem_nil, or_false] at sign
      rcases sign with rfl | rfl <;> cases word

end Token

/-! ### Texts taken apart -/

/-- A token with the blanks in front of it. -/
structure Spaced where
  gap : List Char
  token : Token
  blank : gap.all isBlank
  spelled : token.Spelled

namespace Spaced

def text (p : Spaced) : List Char :=
  p.gap ++ p.token.text.toList

theorem token_ne_eof (p : Spaced) : p.token ≠ .eof := by
  intro ended
  have spelled := p.spelled
  rw [ended] at spelled
  exact spelled

/-- There is a gap between the two tokens if they need one. -/
def Apart (p q : Spaced) : Prop :=
  p.token.RunsInto q.token → q.gap ≠ []

/-- The tokens behind the text `before`, each on the line where it stands. -/
def lexemes (before : List Char) : List Spaced → List Lexeme
  | [] => []
  | p :: ps =>
    { token := p.token, line := 1 + (before ++ p.gap).count '\n' } :: lexemes (before ++ p.text) ps

end Spaced

/-- The text as tokens with blanks before, between and behind them. -/
structure Tokenization (text : List Char) where
  parts : List Spaced
  tail : List Char
  blank : tail.all isBlank
  apart : parts.IsChain Spaced.Apart
  text_eq : parts.flatMap Spaced.text ++ tail = text

/-- The tokens of the text and their lines. -/
def Tokenization.lexemes {text : List Char} (w : Tokenization text) : List Lexeme :=
  Spaced.lexemes [] w.parts

/-! ### What may follow a token -/

theorem isSeparator_of_isBlank {c : Char} (h : isBlank c = true) : isSeparator c = true := by
  simp [isSeparator, h]

/-- A token ends before the end of the text and before a blank. -/
theorem Token.endsBefore_of_blank {t : Token} {rest : List Char}
    (blank : ∀ c, rest.head? = some c → isBlank c = true) : t.EndsBefore rest := by
  have cut : isCutOff rest = true := by
    cases rest with
    | nil => rfl
    | cons c rest => exact isSeparator_of_isBlank (blank c rfl)
  cases t with
  | mark sign =>
    refine Token.endsBefore_mark_iff.2 fun _ equals => ?_
    exact absurd (blank '=' equals) (by decide)
  | keyword | integer | identifier | eof => exact cut

namespace Spaced

/-- One character behind a token tells whether the next token is far enough away. -/
theorem endsBefore_iff (p q : Spaced) (rest : List Char) :
    p.token.EndsBefore (q.text ++ rest) ↔ p.Apart q := by
  obtain ⟨_, t, _, proper⟩ := p
  obtain ⟨gap, token, blank, spelled⟩ := q
  cases gap with
  | cons c cs =>
    have front : isBlank c = true := List.all_eq_true.1 blank c List.mem_cons_self
    simp only [text, Apart, ne_eq, reduceCtorEq, not_false_eq_true, implies_true, iff_true]
    exact Token.endsBefore_of_blank (by rintro d ⟨⟩; exact front)
  | nil =>
    obtain ⟨c, cs, starts, separates, equals⟩ := spelled.exists_head
    simp only [text, List.nil_append, starts, List.cons_append, Apart, ne_eq, not_true_eq_false,
      imp_false, Token.RunsInto]
    cases t with
    | mark sign =>
      rw [Token.endsBefore_mark_iff, ← equals]
      simp [Token.isWord]
    | keyword | integer | identifier =>
      rw [Token.endsBefore_iff_of_isWord rfl, isCutOff, separates]
      simp [Token.isWord]
    | eof => exact proper.elim

/-- In a text taken apart, every token ends where the blanks behind it begin. -/
theorem endsBefore_of_isChain {p : Spaced} {ps : List Spaced} {tail : List Char}
    (apart : (p :: ps).IsChain Apart) (blank : tail.all isBlank) :
    p.token.EndsBefore (ps.flatMap text ++ tail) := by
  cases ps with
  | nil =>
    refine Token.endsBefore_of_blank fun c ahead => ?_
    exact List.all_eq_true.1 blank c (List.mem_of_mem_head? ahead)
  | cons q ps =>
    rw [List.flatMap_cons, List.append_assoc]
    exact (p.endsBefore_iff q _).2 (List.isChain_cons_cons.1 apart).1

end Spaced

/-! ### Scanning a text taken apart -/

namespace Scanner

variable {gap rest : List Char}

theorem skipBlanks_append (gap rest : List Char) (line : Nat) (blank : gap.all isBlank)
    (solid : ∀ c, rest.head? = some c → isBlank c = false) :
    skipBlanks (gap ++ rest) line = { rest := rest, line := line + gap.count '\n' } := by
  induction gap generalizing line with
  | nil =>
    cases rest with
    | nil => rfl
    | cons c rest => simp [skipBlanks, solid c rfl]
  | cons c gap ih =>
    rw [List.all_cons, Bool.and_eq_true] at blank
    rw [List.cons_append, skipBlanks, if_pos blank.1, ih _ blank.2, List.count_cons]
    by_cases ends : c = '\n'
    · simp [ends]
      omega
    · simp [ends]

/-- Blanks and a token are read as the token, on the line behind the blanks. -/
theorem next_spaced (p : Spaced) (ends : p.token.EndsBefore rest) (line : Nat) :
    next ⟨p.text ++ rest, line⟩ =
      (.ok { token := p.token, line := line + p.gap.count '\n' },
        ⟨rest, line + p.gap.count '\n'⟩) := by
  obtain ⟨c, cs, starts, solid, first⟩ := p.token.leads p.spelled ends
  have skipped := skipBlanks_append p.gap (c :: cs) line p.blank (by rintro d ⟨⟩; exact solid)
  rw [Spaced.text, List.append_assoc, starts, next, skipped]
  simp [first]

theorem next_blanks (blank : gap.all isBlank) (line : Nat) :
    next ⟨gap, line⟩ = (.ok { token := .eof, line := line + gap.count '\n' },
      ⟨[], line + gap.count '\n'⟩) := by
  have skipped := skipBlanks_append gap [] line blank nofun
  rw [List.append_nil] at skipped
  rw [next, skipped]

/-- What is read is blanks up to the end of the text, or blanks and a token. -/
theorem next_cases {s behind : Scanner} {lexeme : Lexeme} (found : s.next = (.ok lexeme, behind)) :
    (lexeme.token = .eof ∧ s.rest.all isBlank) ∨
      ∃ p : Spaced, p.token = lexeme.token ∧ s.rest = p.text ++ behind.rest ∧
        p.token.EndsBefore behind.rest := by
  have blank : (s.rest.takeWhile isBlank).all isBlank = true := List.all_takeWhile
  have solid : ∀ c, (s.rest.dropWhile isBlank).head? = some c → isBlank c = false := by
    intro c ahead
    have := List.head?_dropWhile_not isBlank s.rest
    rwa [ahead] at this
  have skipped := skipBlanks_append _ _ s.line blank solid
  have whole := List.takeWhile_append_dropWhile (p := isBlank) (l := s.rest)
  rw [whole] at skipped
  rw [next, skipped] at found
  cases ahead : s.rest.dropWhile isBlank with
  | nil =>
    simp only [ahead, Prod.mk.injEq, Except.ok.injEq] at found
    rw [ahead, List.append_nil] at whole
    exact .inl ⟨by rw [← found.1], whole ▸ blank⟩
  | cons c cs =>
    simp only [ahead] at found
    split at found
    · next token reading =>
      simp only [Prod.mk.injEq, Except.ok.injEq] at found
      obtain ⟨rfl, rfl⟩ := found
      have read := Piece.isToken_of_reading reading
      refine .inr ⟨⟨_, token, blank, read.spelled⟩, rfl, ?_, read.ends⟩
      rw [Spaced.text, List.append_assoc, ← read.text_eq, Piece.text_append_rest_first, ← ahead,
        whole]
    · simp at found

end Scanner

namespace Tokenization

/-- Blanks alone. -/
def blanks {text : List Char} (blank : text.all isBlank) : Tokenization text where
  parts := []
  tail := text
  blank := blank
  apart := .nil
  text_eq := rfl

/-- A token more in front. -/
def cons {rest : List Char} (p : Spaced) (ends : p.token.EndsBefore rest) (w : Tokenization rest) :
    Tokenization (p.text ++ rest) where
  parts := p :: w.parts
  tail := w.tail
  blank := w.blank
  apart := by
    refine List.isChain_cons.2 ⟨fun q ahead => ?_, w.apart⟩
    obtain ⟨ps, list⟩ := List.head?_eq_some_iff.1 ahead
    rw [← w.text_eq, list, List.flatMap_cons, List.append_assoc] at ends
    exact (p.endsBefore_iff q _).1 ends
  text_eq := by rw [List.flatMap_cons, List.append_assoc, w.text_eq]

end Tokenization

namespace TokenStream

/-- A text that is scanned to its end can be taken apart. -/
theorem exists_tokenization {s : Scanner} {line : Nat} (whole : (ofScanner s).ending = .eof line) :
    Nonempty (Tokenization s.rest) := by
  fun_induction ofScanner s with
  | case1 s fault behind found => cases whole
  | case2 s lexeme behind found ended =>
    rcases Scanner.next_cases found with ⟨-, blank⟩ | ⟨p, same, -, -⟩
    · exact ⟨.blanks blank⟩
    · exact absurd (same.trans ended) p.token_ne_eof
  | case3 s lexeme behind found more tail ih =>
    rcases Scanner.next_cases found with ⟨ended, -⟩ | ⟨p, -, text, ends⟩
    · exact absurd ended more
    · obtain ⟨w⟩ := ih whole
      exact ⟨text ▸ w.cons p ends⟩

/-- A text taken apart is scanned into its tokens. -/
theorem ofScanner_parts {parts : List Spaced} {tail : List Char}
    (apart : parts.IsChain Spaced.Apart) (blank : tail.all isBlank) (before : List Char) :
    ofScanner ⟨parts.flatMap Spaced.text ++ tail, 1 + before.count '\n'⟩ =
      { lexemes := Spaced.lexemes before parts
        ending := .eof (1 + (before ++ (parts.flatMap Spaced.text ++ tail)).count '\n') } := by
  induction parts generalizing before with
  | nil =>
    rw [List.flatMap_nil, List.nil_append, ofScanner_of_eof (Scanner.next_blanks blank _) rfl]
    simp [Spaced.lexemes, Nat.add_assoc]
  | cons p ps ih =>
    have next := Scanner.next_spaced p (p.endsBefore_of_isChain apart blank)
      (1 + before.count '\n')
    -- a token has no line feed in it
    have lines : before.count '\n' + p.gap.count '\n' = (before ++ p.text).count '\n' := by
      have none : p.token.text.toList.count '\n' = 0 :=
        List.count_eq_zero.2 fun h => absurd (p.spelled.isBlank_of_mem h) (by decide)
      simp [Spaced.text, none]
    rw [List.flatMap_cons, List.append_assoc, ofScanner_of_token next p.token_ne_eof,
      Nat.add_assoc, lines,
      ih apart.tail (before ++ p.text)]
    simp [Spaced.lexemes, ← lines, List.append_assoc]

theorem withEnd_cons (lexeme : Lexeme) (lexemes : List Lexeme) (ending : Ending) :
    withEnd ⟨lexeme :: lexemes, ending⟩ = lexeme :: withEnd ⟨lexemes, ending⟩ := by
  cases ending <;> rfl

end TokenStream

/-! ### Reading one token ahead -/

namespace TokenReader

/-- Stepping through the reader shows these tokens, the end of the text as the last one. -/
inductive Yields : TokenReader → List Lexeme → Prop where
  | last {r : TokenReader} (ended : r.current.token = .eof) : Yields r [r.current]
  | step {r r' : TokenReader} {others : List Lexeme} (more : r.current.token ≠ .eof)
      (stepped : r.advance = (.ok (), r')) (rest : Yields r' others) :
      Yields r (r.current :: others)

variable {r : TokenReader} {lexemes : List Lexeme}

theorem yields_iff_of_eof (ended : r.current.token = .eof) :
    r.Yields lexemes ↔ lexemes = [r.current] := by
  constructor
  · intro h
    cases h with
    | last => rfl
    | step more => exact absurd ended more
  · rintro rfl
    exact .last ended

theorem yields_iff_of_token (more : r.current.token ≠ .eof) :
    r.Yields lexemes ↔
      ∃ r' others, r.advance = (.ok (), r') ∧ r'.Yields others ∧ lexemes = r.current :: others := by
  constructor
  · intro h
    cases h with
    | last ended => exact absurd ended more
    | step _ stepped rest => exact ⟨_, _, stepped, rest, rfl⟩
  · rintro ⟨r', others, stepped, rest, rfl⟩
    exact .step more stepped rest

/-- Stepping on shows what scanning the whole text gives, if there is no fault in it. -/
theorem yields_iff {s : Scanner} (opened : s.next = (.ok r.current, r.scanner)) :
    r.Yields lexemes ↔ (∃ line, (TokenStream.ofScanner s).ending = .eof line) ∧
      lexemes = (TokenStream.ofScanner s).withEnd := by
  fun_induction TokenStream.ofScanner s generalizing r lexemes with
  | case1 s fault behind found =>
    rw [opened] at found
    cases found
  | case2 s lexeme behind found ended =>
    rw [opened] at found
    cases found
    have current : r.current = { token := .eof, line := r.current.line } := by rw [← ended]
    rw [yields_iff_of_eof ended]
    simp [TokenStream.withEnd, ← current]
  | case3 s lexeme behind found more tail =>
    rename_i ih
    rw [opened] at found
    cases found
    rw [yields_iff_of_token more, TokenStream.withEnd_cons]
    simp only [tail]
    cases ahead : r.scanner.next with
    | mk result behind =>
      cases result with
      | error fault =>
        rw [TokenStream.ofScanner_of_fault ahead]
        simp [advance, more, ahead]
      | ok lexeme =>
        have opened' := @ih { r with scanner := behind, current := lexeme }
        simp [advance, more, ahead, opened' ahead]

end TokenReader

/-- A reader is had on the text, and it yields these tokens. -/
def Lexes (source : String) (lexemes : List Lexeme) : Prop :=
  ∃ r, TokenReader.ofSource? source = .ok r ∧ r.Yields lexemes

theorem lexes_iff {source : String} {lexemes : List Lexeme} :
    Lexes source lexemes ↔ (∃ line, (TokenStream.ofSource source).ending = .eof line) ∧
      lexemes = (TokenStream.ofSource source).withEnd := by
  unfold Lexes TokenReader.ofSource? TokenStream.ofSource
  cases ahead : (Scanner.ofSource source).next with
  | mk result behind =>
    cases result with
    | error fault =>
      rw [TokenStream.ofScanner_of_fault ahead]
      simp
    | ok lexeme =>
      have opened := @TokenReader.yields_iff { scanner := behind, current := lexeme } lexemes _ ahead
      simp [opened]

/-- A text is read to its end exactly if it can be taken apart into tokens that are far
enough from each other. Reading it, one token at a time or as a whole, then gives these
tokens and the end of the text, each on the line where it stands; the value of a literal
is that of its digits. -/
theorem lexes_iff_tokenization (source : String) :
    ((∃ lexemes, Lexes source lexemes) ↔ Nonempty (Tokenization source.toList)) ∧
    ∀ w : Tokenization source.toList,
      (∀ lexemes, Lexes source lexemes ↔
        lexemes = w.lexemes ++ [{ token := .eof, line := 1 + source.toList.count '\n' }]) ∧
      TokenStream.ofSource source =
        { lexemes := w.lexemes, ending := .eof (1 + source.toList.count '\n') } ∧
      ∀ p ∈ w.parts, ∀ digits, p.token = .integer digits →
        ∃ v, p.token.value? = some v ∧ v.toInt = Text.Decimal.value digits.toList := by
  have stream (w : Tokenization source.toList) : TokenStream.ofSource source =
      { lexemes := w.lexemes, ending := .eof (1 + source.toList.count '\n') } := by
    have scanned := TokenStream.ofScanner_parts w.apart w.blank []
    rw [w.text_eq] at scanned
    simpa [TokenStream.ofSource, Scanner.ofSource, Tokenization.lexemes] using scanned
  refine ⟨⟨?_, ?_⟩, fun w => ⟨fun lexemes => ?_, stream w, ?_⟩⟩
  · rintro ⟨lexemes, read⟩
    obtain ⟨⟨line, whole⟩, -⟩ := lexes_iff.1 read
    exact TokenStream.exists_tokenization whole
  · rintro ⟨w⟩
    exact ⟨_, lexes_iff.2 ⟨⟨_, by rw [stream w]⟩, rfl⟩⟩
  · rw [lexes_iff, stream w]
    simp [TokenStream.withEnd]
  · intro p _ digits literal
    have spelled := p.spelled
    rw [literal] at spelled ⊢
    exact ⟨_, rfl, Token.toInt_literal spelled.2.2⟩

end CoreLang
