import Mathlib.Algebra.Ring.Int.Defs
import CoreLang.Proofs.BoundedOutput
import CoreLang.Proofs.DataTokens
import CoreLang.Proofs.Numerals

/-!
# Requests for values

The tokens of data are its longest runs without a blank. `MaximalRuns` says so without a
scan: it takes the bytes apart into runs and the blanks around them, and there is one way
to do so. A stream answers each request from the next run, whatever the requests before
came to, and so gives back values that were written with blanks between them.
-/

namespace CoreLang

/-! ### Runs without a blank -/

/-- Space, tab, line feed, form feed and carriage return. -/
def blankBytes : List UInt8 :=
  [0x20, 0x09, 0x0A, 0x0C, 0x0D]

theorem isDataBlank_iff {b : UInt8} : isDataBlank b = true ↔ b ∈ blankBytes := by
  simp [isDataBlank, blankBytes, or_assoc]

theorem isDataBlank_eq_false_iff {b : UInt8} : isDataBlank b = false ↔ b ∉ blankBytes := by
  rw [← isDataBlank_iff, Bool.not_eq_true]

/-- The bytes are these runs without a blank, each as long as it can be, and blanks around
them. -/
inductive MaximalRuns : List UInt8 → List (List UInt8) → Prop where
  | none {gap : List UInt8} (blank : gap ⊆ blankBytes) : MaximalRuns gap []
  | cons {gap run rest : List UInt8} {runs : List (List UInt8)} (blank : gap ⊆ blankBytes)
      (nonempty : run ≠ []) (solid : ∀ b ∈ run, b ∉ blankBytes)
      (ends : ∀ b, rest.head? = some b → b ∈ blankBytes) (others : MaximalRuns rest runs) :
    MaximalRuns (gap ++ (run ++ rest)) (run :: runs)

theorem maximalRuns_dataTokens (bytes : List UInt8) : MaximalRuns bytes (dataTokens bytes) := by
  fun_induction dataTokens bytes with
  | case1 bytes blanks =>
    exact .none fun b hb => isDataBlank_iff.1 (List.dropWhile_eq_nil_iff.1 blanks b hb)
  | case2 bytes b rest start shorter ih =>
    have text : bytes = bytes.takeWhile isDataBlank ++
        ((b :: rest.takeWhile fun x => !isDataBlank x) ++
          rest.dropWhile fun x => !isDataBlank x) := by
      rw [List.cons_append, List.takeWhile_append_dropWhile, ← start,
        List.takeWhile_append_dropWhile]
    have solid : isDataBlank b = false := by
      have := List.head?_dropWhile_not isDataBlank bytes
      rwa [start] at this
    rw [text]
    refine .cons ?_ (List.cons_ne_nil _ _) ?_ ?_ ih
    · exact fun x hx => isDataBlank_iff.1 (List.all_eq_true.1 List.all_takeWhile x hx)
    · refine List.forall_mem_cons.2 ⟨isDataBlank_eq_false_iff.1 solid, fun x hx => ?_⟩
      have := List.all_eq_true.1 List.all_takeWhile x hx
      exact isDataBlank_eq_false_iff.1 (by simpa using this)
    · intro x ahead
      have := List.head?_dropWhile_not (fun x => !isDataBlank x) rest
      rw [ahead] at this
      exact isDataBlank_iff.1 (by simpa using this)

/-- There is one way to take bytes apart. -/
theorem MaximalRuns.dataTokens_eq {bytes : List UInt8} {runs : List (List UInt8)}
    (h : MaximalRuns bytes runs) : dataTokens bytes = runs := by
  induction h with
  | none blank =>
    exact dataTokens_of_blanks (List.dropWhile_eq_nil_iff.2 fun b hb =>
      isDataBlank_iff.2 (blank hb))
  | @cons gap run rest runs blank nonempty solid ends others ih =>
    obtain ⟨b, run, rfl⟩ := List.exists_cons_of_ne_nil nonempty
    obtain ⟨first, inside⟩ := List.forall_mem_cons.1 solid
    have start : (gap ++ (b :: run ++ rest)).dropWhile isDataBlank = b :: (run ++ rest) := by
      rw [List.dropWhile_append_of_pos fun x hx => isDataBlank_iff.2 (blank hx)]
      simp [isDataBlank_eq_false_iff.2 first]
    have taken : ∀ x ∈ run, (!isDataBlank x) = true := fun x hx => by
      simp [isDataBlank_eq_false_iff.2 (inside x hx)]
    have cut : rest.takeWhile (fun x => !isDataBlank x) = [] ∧
        rest.dropWhile (fun x => !isDataBlank x) = rest := by
      cases rest with
      | nil => simp
      | cons x rest => simp [isDataBlank_iff.2 (ends x rfl)]
    rw [dataTokens_of_start start, List.takeWhile_append_of_pos taken,
      List.dropWhile_append_of_pos taken, cut.1, cut.2, List.append_nil, ih]

/-! ### One request after the other -/

namespace DataStream

/-- The stream after requests on these lines, in order. -/
def after (d : DataStream) : (lines : List Nat) → DataStream
  | [] => d
  | line :: lines => (d.next line).2.after lines

/-- Each request takes one token, whatever it is answered. -/
theorem tokens_after (d : DataStream) (lines : List Nat) :
    (d.after lines).tokens = d.tokens.drop lines.length ∧ (d.after lines).failure = d.failure := by
  induction lines generalizing d with
  | nil => exact ⟨rfl, rfl⟩
  | cons line lines ih =>
    obtain ⟨d', answered, left, failing⟩ := d.next_eq line
    obtain ⟨tokens, failure⟩ := ih (d.next line).2
    rw [after, tokens, failure, answered]
    exact ⟨by simp [left], failing⟩

/-- A request behind others is answered from the token of its number. -/
theorem next_after (d : DataStream) (lines : List Nat) (line : Nat) :
    ((d.after lines).next line).1 =
      match d.tokens[lines.length]?, d.failure with
      | some token, _ =>
        match Number.parse? (Text.Utf8.decodeLossy token) with
        | some v => .ok v
        | none => .error (.inputNotInteger (Text.Utf8.decodeLossy token) line)
      | none, some reason => .error (.io reason line)
      | none, none => .error (.inputExhausted line) := by
  obtain ⟨tokens, failure⟩ := d.tokens_after lines
  obtain ⟨d', answered, -, -⟩ := (d.after lines).next_eq line
  rw [answered, valueAnswer, answer, tokens, failure, List.head?_drop]
  cases d.tokens[lines.length]? <;> cases d.failure <;> rfl

theorem tokens_ofBytes (bytes : List UInt8) (failure : Option String) :
    (ofBytes bytes failure).tokens = dataTokens (readableBytes bytes failure) :=
  rfl

/-- A fresh stream answers one request after the other from the runs of its data, in order. A
run is answered with the value that it writes, if it writes one in range, and is else reported;
behind the last run the data is at an end, or its reader fails. -/
theorem next_answers_runs (bytes : List UInt8) (failure : Option String) :
    ∃ runs, (∀ others, MaximalRuns (readableBytes bytes failure) others ↔ others = runs) ∧
      ∀ (earlier : List Nat) (line : Nat),
        let answer := (((ofBytes bytes failure).after earlier).next line).1
        (∀ token, runs[earlier.length]? = some token →
          (∀ v, answer = .ok v ↔ Numeral token v.toInt) ∧
          ((∀ n, Numeral token n → ¬ (-2 ^ 63 ≤ n ∧ n ≤ 2 ^ 63 - 1)) →
            answer = .error (.inputNotInteger (Text.Utf8.decodeLossy token) line))) ∧
        (runs.length ≤ earlier.length →
          answer = .error (failure.elim (.inputExhausted line) (.io · line))) := by
  refine ⟨dataTokens (readableBytes bytes failure), fun others => ⟨fun h => h.dataTokens_eq.symm,
    fun h => h ▸ maximalRuns_dataTokens _⟩, fun earlier line => ?_⟩
  rw [next_after, tokens_ofBytes]
  refine ⟨fun token here => ?_, fun beyond => ?_⟩
  · rw [here]
    dsimp only
    cases read : Number.parse? (Text.Utf8.decodeLossy token) with
    | some v =>
      have written := Number.parse?_decodeLossy_eq_some_iff.1 read
      refine ⟨fun u => ?_, fun outside => ?_⟩
      · rw [← Number.parse?_decodeLossy_eq_some_iff, read]
        simp
      · exact absurd ⟨v.le_toInt, Int.le_sub_one_of_lt v.toInt_lt⟩ (outside _ written)
    | none =>
      refine ⟨fun u => ?_, fun _ => rfl⟩
      rw [← Number.parse?_decodeLossy_eq_some_iff, read]
      simp
  · rw [List.getElem?_eq_none beyond]
    cases failure <;> rfl

/-- The reader fails in a line that it has begun: the value there is lost, and the two tokens
before are answered as they are. -/
theorem next_answers_runs_of_lost_line :
    let fresh := ofBytes [0x2B, 0x37, 0x20, 0x78, 0x0A, 0x38] (some "lost")
    (fresh.next 3).1 = .ok 7 ∧ ((fresh.after [3]).next 4).1 = .error (.inputNotInteger "x" 4) ∧
      ((fresh.after [3, 4]).next 5).1 = .error (.io "lost" 5) := by
  obtain ⟨runs, unique, answers⟩ :=
    next_answers_runs [0x2B, 0x37, 0x20, 0x78, 0x0A, 0x38] (some "lost")
  have apart : MaximalRuns ([] ++ ([0x2B, 0x37] ++ ([0x20] ++ ([0x78] ++ [0x0A]))))
      [[0x2B, 0x37], [0x78]] := by
    refine .cons (by decide) (by decide) (by simp [blankBytes]) ?_
      (.cons (by decide) (by decide) (by simp [blankBytes]) ?_ (.none (by decide)))
    · rintro b ⟨⟩
      decide
    · rintro b ⟨⟩
      decide
  obtain rfl := (unique _).1 apart
  have seven : Numeral [0x2B, 0x37] (7 : Int64).toInt := .plus ⟨by decide, by simp [isDigitByte]⟩
  have letter : ∀ n, ¬ Numeral [0x78] n := by
    rintro n ⟨-, digits⟩
    exact absurd (digits 0x78 List.mem_cons_self) (by decide)
  have text : Text.Utf8.decodeLossy [0x78] = "x" :=
    Text.Utf8.decodeLossy_encode (s := "x") (by simp)
  refine ⟨(((answers [] 3).1 _ rfl).1 7).2 seven, ?_, (answers [3, 4] 5).2 (by decide)⟩
  rw [← text]
  exact ((answers [3] 4).1 _ rfl).2 fun n written => absurd written (letter n)

end DataStream

/-! ### Values that were written -/

/-- What a `write` statement shows of a value. -/
def shownValue (v : Int64) : List UInt8 :=
  Text.Utf8.encode (Number.text v)

theorem encode_bindingLine (name : String) (v : Int64) :
    Text.Utf8.encode (Tree.bindingLine name v) =
      Text.Utf8.encode (name ++ " = ") ++ shownValue v ++ [0x0A] := by
  simp [Text.Utf8.encode, Tree.bindingLine, shownValue]
  decide

theorem writeValues_eq {m : Machine} {shown : List (String × Int64)}
    (unlimited : m.sink.room = none) (known : ∀ b ∈ shown, m.env.getByName? b.1 = some b.2)
    (line : Nat) :
    Tree.writeValues line (shown.map (·.1)) m = .ok () { m with
      sink := m.sink.plus (shown.flatMap fun b =>
        Text.Utf8.encode (b.1 ++ " = ") ++ shownValue b.2 ++ [0x0A]) } := by
  induction shown generalizing m with
  | nil =>
    rw [List.flatMap_nil, Sink.plus_nil]
    rfl
  | cons b others ih =>
    obtain ⟨here, later⟩ := List.forall_mem_cons.1 known
    have emitted : RunM.emit (Tree.bindingLine b.1 b.2) line m = .ok () { m with
        sink := m.sink.plus (Text.Utf8.encode (Tree.bindingLine b.1 b.2)) } := by
      rw [RunM.emit, Sink.writeText, Sink.write_of_unlimited unlimited]
    rw [List.map_cons, Tree.writeValues, RunM.bind_of_ok (x := RunM.environment) (m := m) _ rfl,
      here]
    dsimp only
    rw [RunM.bind_of_ok _ emitted, ih]
    · rw [Sink.plus_plus, encode_bindingLine, List.flatMap_cons]
    · exact unlimited
    · exact later

theorem isDigitByte_of_mem_blankBytes : ∀ b ∈ blankBytes, isDigitByte b = false := by
  simp [blankBytes, isDigitByte]

theorem not_mem_blankBytes_of_mem_shownValue (v : Int64) : ∀ b ∈ shownValue v, b ∉ blankBytes := by
  refine (Number.numeral_encode_text v).forall_mem (fun b digit blank => ?_) (by decide) (by decide)
  rw [isDigitByte_of_mem_blankBytes b blank] at digit
  cases digit

/-- Values with blanks behind them, one after the other. -/
def spacedValues (parts : List (Int64 × List UInt8)) : List UInt8 :=
  parts.flatMap fun p => shownValue p.1 ++ p.2

theorem maximalRuns_spacedValues {lead : List UInt8} {parts : List (Int64 × List UInt8)}
    (leading : lead ⊆ blankBytes) (blank : ∀ p ∈ parts, p.2 ⊆ blankBytes)
    (apart : ∀ p ∈ parts.dropLast, p.2 ≠ []) :
    MaximalRuns (lead ++ spacedValues parts) (parts.map fun p => shownValue p.1) := by
  induction parts generalizing lead with
  | nil =>
    rw [spacedValues, List.flatMap_nil, List.append_nil]
    exact .none leading
  | cons p parts ih =>
    obtain ⟨here, later⟩ := List.forall_mem_cons.1 blank
    have others : MaximalRuns (p.2 ++ spacedValues parts) (parts.map fun p => shownValue p.1) := by
      refine ih here later fun q hq => apart q ?_
      cases parts with
      | nil => cases hq
      | cons r parts => exact List.mem_cons_of_mem _ hq
    rw [spacedValues, List.flatMap_cons, List.append_assoc, List.map_cons]
    refine .cons leading (Number.numeral_encode_text _).ne_nil
      (not_mem_blankBytes_of_mem_shownValue _) (fun b first => ?_) others
    cases gap : p.2 with
    | cons x gap =>
      rw [gap, List.cons_append, List.head?_cons] at first
      rw [gap, List.cons_subset] at here
      exact Option.some.inj first ▸ here.1
    | nil =>
      -- Only the last value has nothing behind it, so no byte comes first.
      cases parts with
      | nil =>
        rw [gap] at first
        cases first
      | cons q parts => exact absurd gap (apart p List.mem_cons_self)

/-- What `write` shows is a line for each variable, with its value behind the name. Such
values, with blanks between them, are read back as they were, and then the data is at an
end. -/
theorem next_of_spacedValues :
    (∀ (m : Machine) (line : Nat) (shown : List (String × Int64)), m.sink.room = none →
      (∀ b ∈ shown, m.env.getByName? b.1 = some b.2) →
      Tree.writeValues line (shown.map (·.1)) m = .ok () { m with
        sink := m.sink.plus (shown.flatMap fun b =>
          Text.Utf8.encode (b.1 ++ " = ") ++ shownValue b.2 ++ [0x0A]) }) ∧
    ∀ (lead : List UInt8) (parts : List (Int64 × List UInt8)), lead ⊆ blankBytes →
      (∀ p ∈ parts, p.2 ⊆ blankBytes) → (∀ p ∈ parts.dropLast, p.2 ≠ []) →
      ∀ (earlier : List Nat) (line : Nat),
        (((DataStream.ofBytes (lead ++ spacedValues parts) none).after earlier).next line).1 =
          parts[earlier.length]?.elim (.error (.inputExhausted line)) fun p => .ok p.1 := by
  refine ⟨fun m line shown unlimited known => writeValues_eq unlimited known line, ?_⟩
  intro lead parts leading blank apart earlier line
  have runs : (DataStream.ofBytes (lead ++ spacedValues parts) none).tokens =
      parts.map fun p => shownValue p.1 :=
    (maximalRuns_spacedValues leading blank apart).dataTokens_eq
  have read (v : Int64) : Number.parse? (Text.Utf8.decodeLossy (shownValue v)) = some v :=
    Number.parse?_decodeLossy_eq_some_iff.2 (Number.numeral_encode_text v)
  rw [DataStream.next_after, runs, List.getElem?_map]
  cases parts[earlier.length]? with
  | none => rfl
  | some p => simp only [Option.map_some, read, Option.elim_some]

/-- The least value is shown, and read back before another one. -/
theorem next_of_spacedValues_least :
    (let m : Machine :=
      { env := ⟨.ofNames ["A"], #[some Int64.minValue], rfl⟩
        input := .ofBytes [] none
        sink := {} }
     Tree.writeValues 1 ["A"] m = .ok () { m with
      sink := m.sink.plus (Text.Utf8.encode "A = " ++ shownValue Int64.minValue ++ [0x0A]) }) ∧
    (let fresh := DataStream.ofBytes
      ([0x09] ++ spacedValues [(Int64.minValue, [0x0D, 0x0A]), (7, [])]) none
     (fresh.next 1).1 = .ok Int64.minValue ∧ ((fresh.after [1]).next 1).1 = .ok 7 ∧
      ((fresh.after [1, 1]).next 2).1 = .error (.inputExhausted 2)) := by
  have answers := next_of_spacedValues.2 [0x09] [(Int64.minValue, [0x0D, 0x0A]), (7, [])]
    (by decide) (by decide) (by decide)
  refine ⟨?_, answers [] 1, answers [1] 1, answers [1, 1] 2⟩
  exact next_of_spacedValues.1 _ 1 [("A", Int64.minValue)] rfl (by decide)

end CoreLang
