import CoreLang.Number
import CoreLang.Text.Utf8

/-!
# Numerals among bytes

A numeral is an optional sign and one or more ASCII digits. Values are read from bytes in
two steps: the bytes are decoded, with a replacement for what is malformed, and the text is
read as a number. The detour changes nothing: a sign or a digit is decoded from one byte
and from nothing else, so the bytes that are read as a number are the numerals
(`Number.parse?_decodeLossy_eq_some_iff`), among them what a value is written as
(`Number.numeral_encode_text`).
-/

namespace CoreLang

/-- The bytes `0` to `9`. -/
def isDigitByte (b : UInt8) : Bool :=
  0x30 ≤ b && b ≤ 0x39

/-- The value of digits, the most significant first. -/
def digitsValue (digits : List UInt8) : Nat :=
  digits.foldl (fun n b => 10 * n + (b.toNat - 0x30)) 0

/-- One digit or more. -/
def IsDigits (bytes : List UInt8) : Prop :=
  bytes ≠ [] ∧ ∀ b ∈ bytes, isDigitByte b = true

/-- The bytes write the integer in base ten: digits, perhaps behind a `+` or a `-`. -/
inductive Numeral : List UInt8 → Int → Prop where
  | unsigned {digits : List UInt8} (proper : IsDigits digits) : Numeral digits (digitsValue digits)
  | plus {digits : List UInt8} (proper : IsDigits digits) :
    Numeral (0x2B :: digits) (digitsValue digits)
  | minus {digits : List UInt8} (proper : IsDigits digits) :
    Numeral (0x2D :: digits) (-(digitsValue digits : Int))

/-! ### Characters of one byte -/

namespace Text.Utf8

/-- The character of a byte below `0x80`. -/
def asciiChar (b : UInt8) : Char :=
  Char.ofNat b.toNat

@[simp]
theorem toNat_asciiChar (b : UInt8) : (asciiChar b).toNat = b.toNat := by
  have small := b.toNat_lt
  have valid : b.toNat.isValidChar := .inl (by omega)
  unfold asciiChar Char.ofNat
  rw [dif_pos valid]
  rfl

theorem asciiChar_inj {a b : UInt8} : asciiChar a = asciiChar b ↔ a = b := by
  rw [← Char.toNat_inj, toNat_asciiChar, toNat_asciiChar, UInt8.toNat_inj]

theorem piece_of_ascii {first : UInt8} (ascii : first < 0x80) (rest : List UInt8) :
    piece first rest = (some (asciiChar first), rest) := by
  unfold piece
  rw [if_pos ascii, asciiChar]

/-- A character of more than one byte is beyond ASCII: the shorter forms are not admitted. -/
theorem ascii_of_piece {first : UInt8} {rest : List UInt8} {c : Char}
    (decoded : (piece first rest).1 = some c) (positive : 0 < c.toNat) (small : c.toNat < 0x80) :
    first < 0x80 := by
  have beyond {n : Nat} (h : some (Char.ofNat n) = some c) : n < 0x80 := by
    obtain rfl := Option.some.inj h
    by_cases valid : n.isValidChar
    · rw [Char.ofNat, dif_pos valid] at small
      exact small
    · -- a number that no character has stands for the character zero
      rw [Char.ofNat, dif_neg valid] at positive
      exact absurd positive (Nat.lt_irrefl 0)
  revert decoded
  fun_cases piece first rest with
  | case1 _ ascii => exact fun _ => ascii
  | case2 _ lead b =>
    intro decoded
    have := beyond decoded
    simp only [Bool.and_eq_true, decide_eq_true_eq, UInt8.le_iff_toNat_le,
      UInt8.reduceToNat] at lead
    omega
  | case5 _ _ lead b second =>
    intro decoded
    have := beyond decoded
    simp only [Bool.and_eq_true, decide_eq_true_eq, UInt8.le_iff_toNat_le,
      UInt8.reduceToNat] at lead
    by_cases least : first = 0xE0
    · simp only [isSecondOfThree, least, if_true, payload, Bool.and_eq_true, decide_eq_true_eq,
        UInt8.le_iff_toNat_le, UInt8.reduceToNat] at second this
      omega
    · have : first.toNat ≠ 0xE0 := fun same => least (UInt8.toNat_inj.1 same)
      omega
  | case10 _ _ _ lead b second =>
    intro decoded
    have := beyond decoded
    simp only [Bool.and_eq_true, decide_eq_true_eq, UInt8.le_iff_toNat_le,
      UInt8.reduceToNat] at lead
    by_cases least : first = 0xF0
    · simp only [isSecondOfFour, least, if_true, payload, Bool.and_eq_true, decide_eq_true_eq,
        UInt8.le_iff_toNat_le, UInt8.reduceToNat] at second this
      omega
    · have : first.toNat ≠ 0xF0 := fun same => least (UInt8.toNat_inj.1 same)
      omega
  | case3 | case4 | case6 | case7 | case8 | case9 | case11 | case12 | case13 | case14 | case15
  | case16 | case17 => simp

theorem pieces_cons (first : UInt8) (rest : List UInt8) :
    pieces (first :: rest) = (piece first rest).1 :: pieces (piece first rest).2 := by
  rw [pieces]

theorem toList_decodeLossy_of_ascii {bytes : List UInt8} (ascii : ∀ b ∈ bytes, b < 0x80) :
    (decodeLossy bytes).toList = bytes.map asciiChar := by
  rw [decodeLossy, String.toList_ofList]
  induction bytes with
  | nil => simp [pieces]
  | cons first rest ih =>
    rw [List.forall_mem_cons] at ascii
    rw [pieces_cons, piece_of_ascii ascii.1, List.map_cons, ih ascii.2]
    rfl

/-- A text of ASCII characters, none of them `NUL`, is decoded from ASCII bytes only. -/
theorem ascii_of_decodeLossy {bytes : List UInt8}
    (plain : ∀ c ∈ (decodeLossy bytes).toList, 0 < c.toNat ∧ c.toNat < 0x80) :
    ∀ b ∈ bytes, b < 0x80 := by
  rw [decodeLossy, String.toList_ofList] at plain
  fun_induction pieces bytes with
  | case1 => simp
  | case2 first rest ih =>
    rw [List.map_cons, List.forall_mem_cons] at plain
    cases decoded : (piece first rest).1 with
    | none =>
      rw [decoded] at plain
      exact absurd plain.1.2 (by decide)
    | some c =>
      rw [decoded] at plain
      have ascii := ascii_of_piece decoded plain.1.1 plain.1.2
      rw [piece_of_ascii ascii] at ih plain
      exact List.forall_mem_cons.2 ⟨ascii, ih plain.2⟩

theorem asciiChar_ofNat {c : Char} (ascii : c.toNat < 0x80) :
    asciiChar (UInt8.ofNat c.toNat) = c := by
  have small : c.toNat < UInt8.size := Nat.lt_trans ascii (by decide)
  rw [← Char.toNat_inj, toNat_asciiChar, UInt8.toNat_ofNat_of_lt' small]

theorem pieces_utf8EncodeChar {c : Char} (ascii : c.toNat < 0x80) (rest : List UInt8) :
    pieces (String.utf8EncodeChar c ++ rest) = some c :: pieces rest := by
  have one : String.utf8EncodeChar c = [UInt8.ofNat c.toNat] :=
    if_pos (Nat.le_of_lt_succ ascii)
  have low : UInt8.ofNat c.toNat < 0x80 := by
    have small : c.toNat < UInt8.size := Nat.lt_trans ascii (by decide)
    rw [UInt8.lt_iff_toNat_lt, UInt8.toNat_ofNat_of_lt' small]
    exact ascii
  rw [one, List.singleton_append, pieces_cons, piece_of_ascii low, asciiChar_ofNat ascii]

/-- An ASCII text is decoded from its bytes. -/
theorem decodeLossy_encode {s : String} (ascii : ∀ c ∈ s.toList, c.toNat < 0x80) :
    decodeLossy (encode s) = s := by
  have decoded : pieces (encode s) = s.toList.map some := by
    unfold encode
    generalize s.toList = chars at ascii ⊢
    induction chars with
    | nil => simp [pieces]
    | cons c rest ih =>
      rw [List.forall_mem_cons] at ascii
      rw [List.flatMap_cons, pieces_utf8EncodeChar ascii.1, ih ascii.2, List.map_cons]
  rw [decodeLossy, decoded, List.map_map]
  simp [Function.comp_def]

end Text.Utf8

/-! ### Reading numerals -/

open Text.Utf8

theorem isDigit_asciiChar (b : UInt8) : (asciiChar b).isDigit = isDigitByte b := by
  rw [Bool.eq_iff_iff]
  simp only [Char.isDigit, isDigitByte, Bool.and_eq_true, decide_eq_true_eq, ge_iff_le,
    UInt32.le_iff_toNat_le, UInt8.le_iff_toNat_le]
  change 48 ≤ (asciiChar b).toNat ∧ (asciiChar b).toNat ≤ 57 ↔ 48 ≤ b.toNat ∧ b.toNat ≤ 57
  rw [toNat_asciiChar]

theorem natural?_map_asciiChar {bytes : List UInt8} {n : Nat} :
    Text.Decimal.natural? (bytes.map asciiChar) = some n ↔
      IsDigits bytes ∧ digitsValue bytes = n := by
  have digits : (bytes.map asciiChar).all Char.isDigit = true ↔
      ∀ b ∈ bytes, isDigitByte b = true := by
    simp [isDigit_asciiChar]
  have value : Text.Decimal.value (bytes.map asciiChar) = digitsValue bytes := by
    simp only [Text.Decimal.value, Nat.ofDigitChars, List.foldl_map, toNat_asciiChar]
    rfl
  rw [Text.Decimal.natural?, Option.ite_none_right_eq_some, digits, value]
  simp [IsDigits]

section Signs

variable {chars : List Char} {n : Int}

theorem signed?_minus_eq_some_iff : Text.Decimal.signed? ('-' :: chars) = some n ↔
    ∃ k, Text.Decimal.natural? chars = some k ∧ -(k : Int) = n := by
  simp [Text.Decimal.signed?, Option.bind_eq_some_iff]

theorem signed?_plus_eq_some_iff : Text.Decimal.signed? ('+' :: chars) = some n ↔
    ∃ k, Text.Decimal.natural? chars = some k ∧ (k : Int) = n := by
  simp [Text.Decimal.signed?, Option.bind_eq_some_iff]

theorem signed?_eq_some_iff_of_unsigned (minus : chars.head? ≠ some '-')
    (plus : chars.head? ≠ some '+') : Text.Decimal.signed? chars = some n ↔
      ∃ k, Text.Decimal.natural? chars = some k ∧ (k : Int) = n := by
  unfold Text.Decimal.signed?
  split
  · simp at minus
  · simp at plus
  · simp [Option.bind_eq_some_iff]

end Signs

theorem asciiChar_minus : asciiChar 0x2D = '-' := by decide

theorem asciiChar_plus : asciiChar 0x2B = '+' := by decide

theorem head?_map_asciiChar {bytes : List UInt8} {b : UInt8} :
    (bytes.map asciiChar).head? = some (asciiChar b) ↔ bytes.head? = some b := by
  simp [List.head?_map, asciiChar_inj]

theorem IsDigits.head?_ne {digits : List UInt8} {sign : UInt8} (proper : IsDigits digits)
    (other : isDigitByte sign = false) : digits.head? ≠ some sign := by
  intro first
  have := proper.2 sign (List.mem_of_mem_head? first)
  simp [other] at this

/-- An ASCII text is read as a number if its bytes are a numeral. -/
theorem signed?_map_asciiChar {bytes : List UInt8} {n : Int} :
    Text.Decimal.signed? (bytes.map asciiChar) = some n ↔ Numeral bytes n := by
  constructor
  · intro read
    by_cases minus : bytes.head? = some 0x2D
    · obtain ⟨rest, rfl⟩ := List.head?_eq_some_iff.1 minus
      rw [List.map_cons, asciiChar_minus, signed?_minus_eq_some_iff] at read
      obtain ⟨k, found, rfl⟩ := read
      obtain ⟨proper, rfl⟩ := natural?_map_asciiChar.1 found
      exact .minus proper
    by_cases plus : bytes.head? = some 0x2B
    · obtain ⟨rest, rfl⟩ := List.head?_eq_some_iff.1 plus
      rw [List.map_cons, asciiChar_plus, signed?_plus_eq_some_iff] at read
      obtain ⟨k, found, rfl⟩ := read
      obtain ⟨proper, rfl⟩ := natural?_map_asciiChar.1 found
      exact .plus proper
    · rw [← head?_map_asciiChar, asciiChar_minus] at minus
      rw [← head?_map_asciiChar, asciiChar_plus] at plus
      obtain ⟨k, found, rfl⟩ := (signed?_eq_some_iff_of_unsigned minus plus).1 read
      obtain ⟨proper, rfl⟩ := natural?_map_asciiChar.1 found
      exact .unsigned proper
  · intro numeral
    cases numeral with
    | minus proper =>
      rw [List.map_cons, asciiChar_minus, signed?_minus_eq_some_iff]
      exact ⟨_, natural?_map_asciiChar.2 ⟨proper, rfl⟩, rfl⟩
    | plus proper =>
      rw [List.map_cons, asciiChar_plus, signed?_plus_eq_some_iff]
      exact ⟨_, natural?_map_asciiChar.2 ⟨proper, rfl⟩, rfl⟩
    | unsigned proper =>
      have minus := proper.head?_ne (by decide : isDigitByte 0x2D = false)
      have plus := proper.head?_ne (by decide : isDigitByte 0x2B = false)
      rw [ne_eq, ← head?_map_asciiChar, asciiChar_minus] at minus
      rw [ne_eq, ← head?_map_asciiChar, asciiChar_plus] at plus
      exact (signed?_eq_some_iff_of_unsigned minus plus).2
        ⟨_, natural?_map_asciiChar.2 ⟨proper, rfl⟩, rfl⟩

theorem ascii_of_isDigitByte {b : UInt8} (digit : isDigitByte b = true) : b < 0x80 := by
  simp only [isDigitByte, Bool.and_eq_true, decide_eq_true_eq, UInt8.le_iff_toNat_le] at digit
  rw [UInt8.lt_iff_toNat_lt]
  exact Nat.lt_of_le_of_lt digit.2 (by decide)

theorem Numeral.forall_mem {P : UInt8 → Prop} {bytes : List UInt8} {n : Int}
    (numeral : Numeral bytes n) (digit : ∀ b, isDigitByte b = true → P b) (plus : P 0x2B)
    (minus : P 0x2D) : ∀ b ∈ bytes, P b := by
  cases numeral with
  | unsigned proper => exact fun b hb => digit b (proper.2 b hb)
  | plus proper => exact List.forall_mem_cons.2 ⟨plus, fun b hb => digit b (proper.2 b hb)⟩
  | minus proper => exact List.forall_mem_cons.2 ⟨minus, fun b hb => digit b (proper.2 b hb)⟩

theorem Numeral.ne_nil {bytes : List UInt8} {n : Int} (numeral : Numeral bytes n) :
    bytes ≠ [] := by
  cases numeral with
  | unsigned proper => exact proper.1
  | plus | minus => exact List.cons_ne_nil _ _

theorem isDigit_of_natural? {chars : List Char} {k : Nat}
    (read : Text.Decimal.natural? chars = some k) : ∀ c ∈ chars, c.isDigit = true := by
  rw [Text.Decimal.natural?, Option.ite_none_right_eq_some] at read
  exact List.all_eq_true.1 read.1.2

/-- What is read as a number is an ASCII text. -/
theorem plain_of_signed? {chars : List Char} {n : Int}
    (read : Text.Decimal.signed? chars = some n) : ∀ c ∈ chars, 0 < c.toNat ∧ c.toNat < 0x80 := by
  have plain {digits : List Char} {k : Nat} (found : Text.Decimal.natural? digits = some k) :
      ∀ c ∈ digits, 0 < c.toNat ∧ c.toNat < 0x80 := by
    intro c hc
    have digit := isDigit_of_natural? found c hc
    simp only [Char.isDigit, Bool.and_eq_true, decide_eq_true_eq, ge_iff_le,
      UInt32.le_iff_toNat_le] at digit
    exact ⟨Nat.lt_of_lt_of_le (by decide) digit.1, Nat.lt_of_le_of_lt digit.2 (by decide)⟩
  by_cases minus : chars.head? = some '-'
  · obtain ⟨digits, rfl⟩ := List.head?_eq_some_iff.1 minus
    obtain ⟨k, found, -⟩ := signed?_minus_eq_some_iff.1 read
    exact List.forall_mem_cons.2 ⟨by decide, plain found⟩
  by_cases plus : chars.head? = some '+'
  · obtain ⟨digits, rfl⟩ := List.head?_eq_some_iff.1 plus
    obtain ⟨k, found, -⟩ := signed?_plus_eq_some_iff.1 read
    exact List.forall_mem_cons.2 ⟨by decide, plain found⟩
  · obtain ⟨k, found, -⟩ := (signed?_eq_some_iff_of_unsigned minus plus).1 read
    exact plain found

theorem signed?_decodeLossy_eq_some_iff {bytes : List UInt8} {n : Int} :
    Text.Decimal.signed? (decodeLossy bytes).toList = some n ↔ Numeral bytes n := by
  constructor
  · intro read
    have ascii := ascii_of_decodeLossy (plain_of_signed? read)
    rwa [toList_decodeLossy_of_ascii ascii, signed?_map_asciiChar] at read
  · intro numeral
    have ascii := numeral.forall_mem (fun _ => ascii_of_isDigitByte) (by decide) (by decide)
    rwa [toList_decodeLossy_of_ascii ascii, signed?_map_asciiChar]

namespace Number

/-- Bytes are read as a value exactly if they are a numeral of it. -/
theorem parse?_decodeLossy_eq_some_iff {bytes : List UInt8} {v : Int64} :
    parse? (decodeLossy bytes) = some v ↔ Numeral bytes v.toInt := by
  rw [← signed?_decodeLossy_eq_some_iff, parse?, Option.bind_eq_some_iff]
  simp [ofInt?_eq_some_iff]

end Number

/-! ### Writing numerals -/

namespace Text.Decimal

theorem natural?_digits (n : Nat) : natural? (digits n) = some n := by
  have digit : (digits n).all Char.isDigit = true :=
    List.all_eq_true.2 fun _ => Nat.isDigit_of_mem_toDigits (by decide) (by decide)
  rw [natural?, if_pos ⟨Nat.toDigits_ne_nil, digit⟩, value, digits,
    Nat.ofDigitChars_toDigits (by decide) (by decide)]

theorem isDigit_of_mem_ofNat {n : Nat} {c : Char} (among : c ∈ (ofNat n).toList) :
    c.isDigit = true := by
  rw [ofNat, String.toList_ofList] at among
  exact isDigit_of_natural? (natural?_digits n) c among

theorem mem_ofInt {n : Int} {c : Char} (among : c ∈ (ofInt n).toList) :
    c = '-' ∨ c.isDigit = true := by
  cases n with
  | ofNat n => exact .inr (isDigit_of_mem_ofNat among)
  | negSucc n =>
    rw [ofInt, String.toList_append] at among
    rcases List.mem_append.1 among with sign | digit
    · exact .inl (List.mem_singleton.1 sign)
    · exact .inr (isDigit_of_mem_ofNat digit)

theorem signed?_ofInt (n : Int) : signed? (ofInt n).toList = some n := by
  cases n with
  | negSucc n =>
    have chars : (ofInt (.negSucc n)).toList = '-' :: digits (n + 1) := by simp [ofInt, ofNat]
    rw [chars, signed?_minus_eq_some_iff]
    exact ⟨_, natural?_digits _, rfl⟩
  | ofNat n =>
    have chars : (ofInt (.ofNat n)).toList = digits n := by simp [ofInt, ofNat]
    have unsigned {c : Char} (other : c.isDigit = false) : (digits n).head? ≠ some c := by
      intro first
      have := isDigit_of_natural? (natural?_digits n) c (List.mem_of_mem_head? first)
      simp [other] at this
    rw [chars, signed?_eq_some_iff_of_unsigned (unsigned (by decide)) (unsigned (by decide))]
    exact ⟨_, natural?_digits n, rfl⟩

end Text.Decimal

/-- The bytes that a value is written as are a numeral of it. -/
theorem Number.numeral_encode_text (v : Int64) : Numeral (encode (text v)) v.toInt := by
  have read : Text.Decimal.signed? (text v).toList = some v.toInt := Text.Decimal.signed?_ofInt _
  rwa [← signed?_decodeLossy_eq_some_iff,
    decodeLossy_encode fun c hc => (plain_of_signed? read c hc).2]

end CoreLang
