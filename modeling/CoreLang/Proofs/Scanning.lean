import CoreLang.Proofs.Derivation
import CoreLang.Token.Stream

/-!
# Scanning a text that is put together

A piece of a text that is read as a token spells this token, and all that belongs to it
(`Piece.IsToken`). Conversely a token that is spelled out is the first piece of a text, if
it ends before what follows it (`Token.leads`): a word is cut off there, and a mark is not
the first half of a longer one.

`Scans text tokens` says that a text is scanned to its end and read as the tokens. It
goes one blank or one piece at a time, so a text that is written token by token is
scanned token by token.
-/

namespace CoreLang

/-! ### The tokens of a stream -/

namespace TokenStream

variable {s s' behind : Scanner} {lexeme : Lexeme}

/-- What the grammar sees of the tokens of a text. -/
def terminals (s : TokenStream) : List Terminal :=
  s.lexemes.map Lexeme.terminal

theorem ofScanner_of_fault {fault : ScanFault} (h : s.next = (.error fault, behind)) :
    ofScanner s = { lexemes := [], ending := .fault fault } := by
  rw [ofScanner]
  split <;> simp_all

theorem ofScanner_of_eof (h : s.next = (.ok lexeme, behind)) (ended : lexeme.token = .eof) :
    ofScanner s = { lexemes := [], ending := .eof lexeme.line } := by
  rw [ofScanner]
  split <;> simp_all

theorem ofScanner_of_token (h : s.next = (.ok lexeme, behind)) (more : lexeme.token ≠ .eof) :
    ofScanner s =
      { lexemes := lexeme :: (ofScanner behind).lexemes, ending := (ofScanner behind).ending } := by
  rw [ofScanner]
  split <;> simp_all

/-- The tokens depend on nothing but the next of them. -/
theorem ofScanner_eq_of_next (same : s.next = s'.next) : ofScanner s = ofScanner s' := by
  rcases found : s.next with ⟨fault | lexeme, behind⟩
  · exact (ofScanner_of_fault found).trans (ofScanner_of_fault (same ▸ found)).symm
  · by_cases ended : lexeme.token = .eof
    · exact (ofScanner_of_eof found ended).trans (ofScanner_of_eof (same ▸ found) ended).symm
    · exact (ofScanner_of_token found ended).trans (ofScanner_of_token (same ▸ found) ended).symm

/-- The end of the text is no token in it. -/
theorem token_ne_eof {l : Lexeme} (h : l ∈ (ofScanner s).lexemes) : l.token ≠ .eof := by
  fun_induction ofScanner s with
  | case1 s fault behind found => simp at h
  | case2 s lexeme behind found ended => simp at h
  | case3 s lexeme behind found more tail ih =>
    rcases List.mem_cons.1 h with rfl | h
    · exact more
    · exact ih h

end TokenStream

/-! ### What a piece reads as -/

/-- The names that can be written: capitals and then digits, one capital at least. -/
def IsName (name : String) : Prop :=
  (∃ c cs, name.toList = c :: cs ∧ c.isUpper) ∧
    (name.toList.dropWhile Char.isUpper).all Char.isDigit

/-- What a token of some text can be. -/
def Terminal.Written : Terminal → Prop
  | .integer value => 0 ≤ value.toInt
  | .identifier name => IsName name
  | .eof => False
  | .keyword _ | .mark _ => True

namespace Token

/-- The tokens that can be spelled out: keywords and marks, digits whose value fits, and
names. -/
def Spelled : Token → Prop
  | .keyword _ | .mark _ => True
  | .integer digits =>
    digits.toList ≠ [] ∧ digits.toList.all Char.isDigit ∧
      Text.Decimal.value digits.toList ≤ Int64.maxValue.toInt
  | .identifier name => IsName name
  | .eof => False

/-- The token ends where `rest` begins: a word is cut off from it, and a mark is not the
first half of a longer one. -/
def EndsBefore (rest : List Char) : Token → Prop
  | .mark sign => ∀ c d, sign.text.toList = [c] → rest.head? = some d → Mark.double? c d = none
  | _ => isCutOff rest

/-- A literal that fits denotes the value of its digits. -/
theorem toInt_literal {digits : String}
    (small : Text.Decimal.value digits.toList ≤ Int64.maxValue.toInt) :
    (literal digits).toInt = Text.Decimal.value digits.toList := by
  rw [Int64.toInt_maxValue] at small
  exact Int64.toInt_ofNat_of_lt (by omega)

theorem Spelled.written {t : Token} (h : t.Spelled) : t.terminal.Written := by
  cases t with
  | keyword word => trivial
  | mark sign => trivial
  | integer digits =>
    obtain ⟨-, -, small⟩ := h
    simp only [terminal, Terminal.Written, toInt_literal small]
    exact Int.natCast_nonneg _
  | identifier name => exact h
  | eof => exact h

end Token

theorem Keyword.text_of_ofText? {word : String} {k : Keyword} (h : ofText? word = some k) :
    k.text = word := by
  unfold ofText? at h
  simpa using List.find?_some h

namespace Piece

variable {c : Char} {cs : List Char} {token : Token}

/-- The piece is a token, with all that belongs to it. -/
structure IsToken (piece : Piece) (token : Token) : Prop where
  text_eq : piece.text = token.text.toList
  spelled : token.Spelled
  ends : token.EndsBefore piece.rest

theorem isToken_of_word (reading : (run c cs Char.isLower readWord).reading = .ok token) :
    (run c cs Char.isLower readWord).IsToken token := by
  simp only [run, readWord] at reading
  split at reading
  · cases reading
  · next k found =>
    split at reading
    · next cut =>
      cases reading
      refine ⟨?_, trivial, cut⟩
      simp [run, Token.text, Keyword.text_of_ofText? found]
    · cases reading

theorem isToken_of_digits (digit : c.isDigit = true)
    (reading : (run c cs Char.isDigit readDigits).reading = .ok token) :
    (run c cs Char.isDigit readDigits).IsToken token := by
  simp only [run, readDigits] at reading
  split at reading
  · cases reading
  · next cut =>
    split at reading
    · next small =>
      cases reading
      have cut : isCutOff (cs.dropWhile Char.isDigit) = true := by simpa using cut
      refine ⟨by simp [run, Token.text], ⟨by simp, ?_, small⟩, cut⟩
      simp only [String.toList_ofList, List.all_cons, digit, Bool.true_and]
      exact List.all_takeWhile
    · cases reading

theorem isToken_of_name (capital : c.isUpper = true)
    (reading : (run c cs (fun d => d.isUpper || d.isDigit) readName).reading = .ok token) :
    (run c cs (fun d => d.isUpper || d.isDigit) readName).IsToken token := by
  simp only [run, readName] at reading
  split at reading
  · cases reading
  · next digits =>
    split at reading
    · next cut =>
      cases reading
      refine ⟨by simp [run, Token.text], ⟨⟨c, _, String.toList_ofList, capital⟩, ?_⟩, cut⟩
      simpa using digits
    · cases reading

theorem isToken_of_one (alone : ∀ d, cs.head? = some d → Mark.double? c d = none)
    (reading : (one c cs).reading = .ok token) : (one c cs).IsToken token := by
  simp only [one] at reading
  split at reading
  · next m found =>
    cases reading
    have spelled : m.text.toList = [c] := by
      unfold Mark.single? at found
      split at found <;> cases found <;> rfl
    refine ⟨spelled.symm, trivial, fun c' d single ahead => ?_⟩
    obtain rfl : c = c' := by simpa [spelled] using single
    exact alone d ahead
  · cases reading

theorem isToken_of_mark (reading : (mark c cs).reading = .ok token) :
    (mark c cs).IsToken token := by
  cases cs with
  | nil => exact isToken_of_one nofun reading
  | cons d rest =>
    simp only [mark] at reading ⊢
    split at reading
    · next m found =>
      cases reading
      have spelled : m.text.toList = [c, d] := by
        unfold Mark.double? at found
        split at found <;> cases found <;> rfl
      refine ⟨spelled.symm, trivial, fun c' d' single _ => ?_⟩
      simp [spelled] at single
    · next apart => exact isToken_of_one (by rintro e ⟨⟩; exact apart) reading

/-- What a piece reads as is spelled by the piece. -/
theorem isToken_of_reading (reading : (first c cs).reading = .ok token) :
    (first c cs).IsToken token := by
  unfold first at reading ⊢
  split at reading
  · next lower =>
    rw [if_pos lower]
    exact isToken_of_word reading
  · next lower =>
    rw [if_neg lower]
    split at reading
    · next digit =>
      rw [if_pos digit]
      exact isToken_of_digits digit reading
    · next digit =>
      rw [if_neg digit]
      split at reading
      · next capital =>
        rw [if_pos capital]
        exact isToken_of_name capital reading
      · next capital =>
        rw [if_neg capital]
        exact isToken_of_mark reading

theorem written_of_reading (reading : (first c cs).reading = .ok token) :
    token.terminal.Written :=
  (isToken_of_reading reading).spelled.written

end Piece

theorem Scanner.written_of_next {s behind : Scanner} {lexeme : Lexeme}
    (found : s.next = (.ok lexeme, behind)) (more : lexeme.token ≠ .eof) :
    lexeme.terminal.Written := by
  simp only [next] at found
  split at found
  · obtain ⟨rfl, rfl⟩ := by simpa using found
    exact absurd rfl more
  · split at found
    · next token reading =>
      obtain ⟨rfl, rfl⟩ := by simpa using found
      exact Piece.written_of_reading reading
    · simp at found

/-- Every token of a stream stands in some text. -/
theorem TokenStream.written_of_mem {s : Scanner} {t : Terminal}
    (h : t ∈ (TokenStream.ofScanner s).terminals) : t.Written := by
  obtain ⟨l, hl, rfl⟩ := List.mem_map.1 h
  fun_induction TokenStream.ofScanner s with
  | case1 s fault behind found => simp at hl
  | case2 s lexeme behind found ended => simp at hl
  | case3 s lexeme behind found more tail ih =>
    rcases List.mem_cons.1 hl with rfl | hl
    · exact Scanner.written_of_next found more
    · exact ih hl (List.mem_map.2 ⟨l, hl, rfl⟩)

/-! ### Scanning piece by piece -/

/-- The text is scanned to its end, into these tokens. -/
inductive Scans : List Char → List Terminal → Prop where
  | done : Scans [] []
  | blank {c : Char} {cs : List Char} {ts : List Terminal} (skipped : isBlank c = true)
      (rest : Scans cs ts) : Scans (c :: cs) ts
  | piece {c : Char} {cs : List Char} {token : Token} {ts : List Terminal}
      (solid : isBlank c = false) (reading : (Piece.first c cs).reading = .ok token)
      (rest : Scans (Piece.first c cs).rest ts) : Scans (c :: cs) (token.terminal :: ts)

theorem Scanner.next_blank {c : Char} {cs : List Char} {line : Nat} (skipped : isBlank c = true) :
    Scanner.next ⟨c :: cs, line⟩ = Scanner.next ⟨cs, if c = '\n' then line + 1 else line⟩ := by
  simp [next, skipBlanks, skipped]

theorem Scans.stream {text : List Char} {ts : List Terminal} (h : Scans text ts) (line : Nat) :
    (TokenStream.ofScanner ⟨text, line⟩).terminals = ts ∧
      ∃ l, (TokenStream.ofScanner ⟨text, line⟩).ending = .eof l := by
  induction h generalizing line with
  | done =>
    have next : Scanner.next ⟨[], line⟩ = (.ok { token := .eof, line := line }, ⟨[], line⟩) := rfl
    rw [TokenStream.ofScanner_of_eof next rfl]
    exact ⟨rfl, line, rfl⟩
  | @blank c cs ts skipped rest ih =>
    rw [TokenStream.ofScanner_eq_of_next (Scanner.next_blank skipped)]
    exact ih _
  | @piece c cs token ts solid reading rest ih =>
    have next : Scanner.next ⟨c :: cs, line⟩ =
        (.ok { token := token, line := line }, ⟨(Piece.first c cs).rest, line⟩) := by
      simp [Scanner.next, Scanner.skipBlanks, solid, reading]
    have more : token ≠ .eof := by
      rintro rfl
      exact Piece.written_of_reading reading
    obtain ⟨tokens, ends⟩ := ih line
    rw [TokenStream.ofScanner_of_token next more]
    exact ⟨congrArg (token.terminal :: ·) tokens, ends⟩

/-! ### Words and marks -/

/-- No character of a word separates. -/
theorem isAlphanum_of_isSeparator {c : Char} (h : isSeparator c = true) : c.isAlphanum = false := by
  simp only [isSeparator, isBlank, isPunctuation, Bool.or_eq_true, Bool.and_eq_true,
    decide_eq_true_eq, Bool.not_eq_true'] at h
  rcases h with ((((((rfl | rfl) | rfl) | rfl) | rfl) | rfl)) | ⟨_, h⟩
  · decide
  · decide
  · decide
  · decide
  · decide
  · decide
  · exact h

theorem isBlank_of_isAlphanum {c : Char} (h : c.isAlphanum = true) : isBlank c = false := by
  refine Bool.eq_false_iff.2 fun blank => ?_
  have := isAlphanum_of_isSeparator (c := c) (by simp [isSeparator, blank])
  simp [h] at this

/-- A run of characters ends where a separator follows. -/
theorem takeWhile_append_of_isCutOff {p : Char → Bool} {word rest : List Char}
    (within : ∀ c ∈ word, p c = true) (letters : ∀ c, p c = true → c.isAlphanum = true)
    (cut : isCutOff rest = true) :
    (word ++ rest).takeWhile p = word ∧ (word ++ rest).dropWhile p = rest := by
  have ends : rest.takeWhile p = [] ∧ rest.dropWhile p = rest := by
    cases rest with
    | nil => simp
    | cons d rest =>
      have : p d = false := Bool.eq_false_iff.2 fun more => by
        have := letters d more
        simp [isAlphanum_of_isSeparator cut] at this
      simp [this]
  rw [List.takeWhile_append_of_pos within, List.dropWhile_append_of_pos within, ends.1, ends.2]
  simp

theorem isAlphanum_eq (c : Char) : c.isAlphanum = (c.isUpper || c.isLower || c.isDigit) := rfl

theorem isUpper_iff {c : Char} : c.isUpper = true ↔ c.val ≥ 'A'.val ∧ c.val ≤ 'Z'.val :=
  decide_eq_true_iff

theorem isLower_iff {c : Char} : c.isLower = true ↔ c.val ≥ 'a'.val ∧ c.val ≤ 'z'.val := by
  rw [← decide_eq_true_iff (p := c.val ≥ 'a'.val), ← decide_eq_true_iff (p := c.val ≤ 'z'.val),
    ← Bool.and_eq_true]
  rfl

theorem isDigit_iff {c : Char} : c.isDigit = true ↔ c.val ≥ '0'.val ∧ c.val ≤ '9'.val := by
  rw [← decide_eq_true_iff (p := c.val ≥ '0'.val), ← decide_eq_true_iff (p := c.val ≤ '9'.val),
    ← Bool.and_eq_true]
  rfl

theorem isLower_of_isUpper {c : Char} (h : c.isUpper = true) : c.isLower = false := by
  refine Bool.eq_false_iff.2 fun lower => ?_
  have := UInt32.le_trans (isLower_iff.1 lower).1 (isUpper_iff.1 h).2
  exact absurd this (by decide)

theorem isDigit_of_isUpper {c : Char} (h : c.isUpper = true) : c.isDigit = false := by
  refine Bool.eq_false_iff.2 fun digit => ?_
  have := UInt32.le_trans (isUpper_iff.1 h).1 (isDigit_iff.1 digit).2
  exact absurd this (by decide)

theorem isLower_of_isDigit {c : Char} (h : c.isDigit = true) : c.isLower = false := by
  refine Bool.eq_false_iff.2 fun lower => ?_
  have := UInt32.le_trans (isLower_iff.1 lower).1 (isDigit_iff.1 h).2
  exact absurd this (by decide)

/-! ### Pieces of a text that begins with a token -/

namespace Piece

variable {c : Char} {cs rest : List Char} {p : Char → Bool}
  {read : String → List Char → Except ScanCause Token}

/-- A run of characters of one kind is cut off as a whole. -/
theorem run_append (within : ∀ d ∈ cs, p d = true)
    (letters : ∀ d, p d = true → d.isAlphanum = true) (cut : isCutOff rest = true) :
    run c (cs ++ rest) p read =
      { text := c :: cs, reading := read (String.ofList (c :: cs)) rest, rest := rest } := by
  obtain ⟨takes, drops⟩ := takeWhile_append_of_isCutOff within letters cut
  simp only [run, takes, drops]

theorem first_of_punctuation (h : isPunctuation c = true) : first c cs = mark c cs := by
  simp only [isPunctuation, isAlphanum_eq, Bool.and_eq_true, Bool.not_eq_true',
    Bool.or_eq_false_iff] at h
  simp [first, h]

end Piece

/-- Written in front of `rest`, the token is the first piece of the text. -/
def Token.Leads (t : Token) (rest : List Char) : Prop :=
  ∃ c cs, t.text.toList ++ rest = c :: cs ∧ isBlank c = false ∧
    Piece.first c cs = { text := t.text.toList, reading := .ok t, rest := rest }

namespace Token

variable {rest : List Char}

theorem leads_keyword (word : Keyword) (cut : isCutOff rest = true) :
    (Token.keyword word).Leads rest := by
  obtain ⟨c, cs, spelled, starts, others⟩ : ∃ c cs, word.text.toList = c :: cs ∧
      c.isLower = true ∧ cs.all Char.isLower = true := by
    cases word <;> exact ⟨_, _, rfl, by decide, by decide⟩
  have found : Keyword.ofText? word.text = some word := by
    cases word <;> decide
  have letters (d : Char) (hd : d.isLower = true) : d.isAlphanum = true := by
    simp [isAlphanum_eq, hd]
  have reading : Piece.readWord (String.ofList (c :: cs)) rest = .ok (.keyword word) := by
    rw [← spelled, String.ofList_toList, Piece.readWord, found]
    simp [cut]
  refine ⟨c, cs ++ rest, by rw [text, spelled]; rfl, isBlank_of_isAlphanum (letters c starts), ?_⟩
  rw [Piece.first, if_pos starts, Piece.run_append (List.all_eq_true.1 others) letters cut, reading,
    text, spelled]

theorem leads_integer {digits : String} (spelled : (Token.integer digits).Spelled)
    (cut : isCutOff rest = true) : (Token.integer digits).Leads rest := by
  obtain ⟨some_digit, all_digits, small⟩ := spelled
  obtain ⟨c, cs, list⟩ := List.exists_cons_of_ne_nil some_digit
  have digit : ∀ d ∈ c :: cs, d.isDigit = true := list ▸ List.all_eq_true.1 all_digits
  have starts : c.isDigit = true := digit c List.mem_cons_self
  have letters (d : Char) (hd : d.isDigit = true) : d.isAlphanum = true := by
    simp [isAlphanum_eq, hd]
  have reading : Piece.readDigits (String.ofList (c :: cs)) rest = .ok (.integer digits) := by
    rw [← list, String.ofList_toList, Piece.readDigits, cut, if_neg (by decide), if_pos small]
  refine ⟨c, cs ++ rest, by rw [text, list]; rfl, isBlank_of_isAlphanum (letters c starts), ?_⟩
  rw [Piece.first, isLower_of_isDigit starts, if_neg (by decide), if_pos starts,
    Piece.run_append (fun d hd => digit d (List.mem_cons_of_mem _ hd)) letters cut, reading, text,
    list]

theorem leads_identifier {name : String} (proper : IsName name) (cut : isCutOff rest = true) :
    (Token.identifier name).Leads rest := by
  obtain ⟨⟨c, cs, spelled, capital⟩, digits⟩ := proper
  have within : ∀ d ∈ cs, (d.isUpper || d.isDigit) = true := by
    intro d hd
    have member : d ∈ name.toList.takeWhile Char.isUpper ++ name.toList.dropWhile Char.isUpper := by
      rw [List.takeWhile_append_dropWhile, spelled]
      exact List.mem_cons_of_mem _ hd
    rcases List.mem_append.1 member with hd | hd
    · simp [List.all_eq_true.1 List.all_takeWhile d hd]
    · simp [List.all_eq_true.1 digits d hd]
  have letters (d : Char) (hd : (d.isUpper || d.isDigit) = true) : d.isAlphanum = true := by
    rcases Bool.or_eq_true_iff.1 hd with hd | hd <;> simp [isAlphanum_eq, hd]
  have reading : Piece.readName (String.ofList (c :: cs)) rest = .ok (.identifier name) := by
    rw [← spelled, String.ofList_toList, Piece.readName, digits]
    simp [cut]
  refine ⟨c, cs ++ rest, by rw [text, spelled]; rfl,
    isBlank_of_isAlphanum (letters c (by simp [capital])), ?_⟩
  rw [Piece.first, isLower_of_isUpper capital, if_neg (by decide), isDigit_of_isUpper capital,
    if_neg (by decide), if_pos capital, Piece.run_append within letters cut, reading, text, spelled]

theorem leads_mark {sign : Mark} (ends : (Token.mark sign).EndsBefore rest) :
    (Token.mark sign).Leads rest := by
  obtain ⟨c, spelled, solid, starts, found⟩ | ⟨c, d, spelled, solid, starts, found⟩ :
      (∃ c, sign.text.toList = [c] ∧ isBlank c = false ∧ isPunctuation c = true ∧
        Mark.single? c = some sign) ∨
      (∃ c d, sign.text.toList = [c, d] ∧ isBlank c = false ∧ isPunctuation c = true ∧
        Mark.double? c d = some sign) := by
    cases sign <;> first
      | exact .inl ⟨_, rfl, by decide, by decide, rfl⟩
      | exact .inr ⟨_, _, rfl, by decide, by decide, rfl⟩
  · -- the next character does not join a sign of one
    have one : Piece.mark c rest = Piece.one c rest := by
      cases rest with
      | nil => rfl
      | cons d rest => simp [Piece.mark, ends c d spelled rfl]
    refine ⟨c, rest, by rw [text, spelled]; rfl, solid, ?_⟩
    rw [Piece.first_of_punctuation starts, one, Piece.one, found, text, spelled]
  · refine ⟨c, d :: rest, by rw [text, spelled]; rfl, solid, ?_⟩
    rw [Piece.first_of_punctuation starts, Piece.mark, found, text, spelled]

/-- Spelled out in front of a text that it does not run into, a token is read back. -/
theorem leads {t : Token} (spelled : t.Spelled) (ends : t.EndsBefore rest) : t.Leads rest := by
  cases t with
  | keyword word => exact leads_keyword word ends
  | mark sign => exact leads_mark ends
  | integer digits => exact leads_integer spelled ends
  | identifier name => exact leads_identifier spelled ends
  | eof => exact spelled.elim

end Token

/-- The text of a value that is not negative is a literal that denotes it. -/
theorem Token.spelled_text {value : Int64} (positive : 0 ≤ value.toInt) :
    (Token.integer (Number.text value)).Spelled ∧
      (Token.integer (Number.text value)).terminal = .integer value := by
  obtain ⟨n, same⟩ := Int.eq_ofNat_of_zero_le positive
  have digits : (Number.text value).toList = Nat.toDigits 10 n := by
    rw [Number.text, same]
    simp [Text.Decimal.ofInt, Text.Decimal.ofNat, Text.Decimal.digits]
  have sum : Text.Decimal.value (Number.text value).toList = n := by
    rw [digits]
    exact Nat.ofDigitChars_toDigits (by decide) (by decide)
  have small : (n : Int) ≤ Int64.maxValue.toInt := by
    have := value.toInt_lt
    rw [Int64.toInt_maxValue]
    omega
  have spelled : (Token.integer (Number.text value)).Spelled := by
    simp only [Token.Spelled]
    rw [sum, digits]
    refine ⟨Nat.toDigits_ne_nil, List.all_eq_true.2 fun d hd => ?_, small⟩
    exact Nat.isDigit_of_mem_toDigits (by decide) (by decide) hd
  refine ⟨spelled, ?_⟩
  rw [Token.terminal, Terminal.integer.injEq, ← Int64.toInt_inj,
    Token.toInt_literal spelled.2.2, sum, same]

namespace Scans

variable {text : List Char} {ts : List Terminal}

theorem blanks (n : Nat) (h : Scans text ts) : Scans (List.replicate n ' ' ++ text) ts := by
  induction n with
  | zero => exact h
  | succ n ih => exact .blank rfl ih

theorem token {t : Token} (spelled : t.Spelled) (h : Scans text ts) (ends : t.EndsBefore text) :
    Scans (t.text.toList ++ text) (t.terminal :: ts) := by
  obtain ⟨c, cs, begins, solid, first⟩ := t.leads spelled ends
  rw [begins]
  refine .piece solid ?_ ?_
  · rw [first]
  · rwa [first]

theorem keyword (word : Keyword) (h : Scans text ts) (cut : isCutOff text = true) :
    Scans (word.text.toList ++ text) (.keyword word :: ts) :=
  h.token (t := .keyword word) trivial cut

theorem identifier {name : String} (proper : IsName name) (h : Scans text ts)
    (cut : isCutOff text = true) : Scans (name.toList ++ text) (.identifier name :: ts) :=
  h.token (t := .identifier name) proper cut

theorem integer {value : Int64} (positive : 0 ≤ value.toInt) (h : Scans text ts)
    (cut : isCutOff text = true) :
    Scans ((Number.text value).toList ++ text) (.integer value :: ts) := by
  obtain ⟨spelled, read⟩ := Token.spelled_text positive
  have scanned := h.token spelled cut
  rw [read] at scanned
  exact scanned

/-- A mark must not be the first half of a longer one. -/
theorem mark (sign : Mark) (h : Scans text ts)
    (apart : ∀ c d, sign.text.toList = [c] → text.head? = some d → Mark.double? c d = none) :
    Scans (sign.text.toList ++ text) (.mark sign :: ts) :=
  h.token (t := .mark sign) trivial apart

end Scans

end CoreLang
