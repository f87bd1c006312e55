import CoreLang.Proofs.ScanningOn

/-!
# Tokens that are handed out

A reader can be used in two ways: by looking at the token it stands on and stepping to the
next one, or by having the tokens handed out. The first shows the tokens up to the end of the
text or to the first fault (`TokenReader.Pulls`). The second gives the same tokens and then
nothing more, except that a fault comes in place of the token before it.
-/

namespace CoreLang

namespace TokenReader

/-- The tokens that the reader stands on, with a step after each of them, up to the end of
the text or up to the first step that fails; and the fault of that step. -/
inductive Pulls : TokenReader → List Lexeme → Option ScanFault → Prop where
  | ended {r : TokenReader} (last : r.current.token = .eof) : Pulls r [r.current] none
  | failed {r r' : TokenReader} {fault : ScanFault} (more : r.current.token ≠ .eof)
      (call : r.advance = (.error fault, r')) : Pulls r [r.current] (some fault)
  | stepped {r r' : TokenReader} {others : List Lexeme} {outcome : Option ScanFault}
      (more : r.current.token ≠ .eof) (call : r.advance = (.ok (), r'))
      (later : Pulls r' others outcome) : Pulls r (r.current :: others) outcome

variable {r r' : TokenReader} {tokens : List Lexeme} {outcome : Option ScanFault}

namespace Pulls

theorem ne_nil (h : r.Pulls tokens outcome) : tokens ≠ [] := by
  cases h <;> exact List.cons_ne_nil _ _

theorem unique {tokens' : List Lexeme} {outcome' : Option ScanFault}
    (h : r.Pulls tokens outcome) (h' : r.Pulls tokens' outcome') :
    tokens' = tokens ∧ outcome' = outcome := by
  induction h generalizing tokens' outcome' with
  | ended last =>
    cases h' with
    | ended => exact ⟨rfl, rfl⟩
    | failed more | stepped more => exact absurd last more
  | failed more call =>
    cases h' with
    | ended last => exact absurd last more
    | failed _ call' =>
      cases call.symm.trans call'
      exact ⟨rfl, rfl⟩
    | stepped _ call' => cases call.symm.trans call'
  | stepped more call later ih =>
    cases h' with
    | ended last => exact absurd last more
    | failed _ call' => cases call.symm.trans call'
    | stepped _ call' later' =>
      cases call.symm.trans call'
      obtain ⟨rfl, rfl⟩ := ih later'
      exact ⟨rfl, rfl⟩

/-- The end of the text is the last token, and it is there if no step fails. -/
theorem exists_last (h : r.Pulls tokens outcome) :
    ∃ front last, tokens = front ++ [last] ∧ (∀ l ∈ front, l.token ≠ .eof) ∧
      (last.token = .eof ↔ outcome = none) := by
  induction h with
  | @ended r last => exact ⟨[], r.current, rfl, by simp, by simp [last]⟩
  | @failed r r' fault more call => exact ⟨[], r.current, rfl, by simp, by simp [more]⟩
  | @stepped r r' others outcome more call later ih =>
    obtain ⟨front, last, rfl, inside, ends⟩ := ih
    exact ⟨r.current :: front, last, rfl, List.forall_mem_cons.2 ⟨more, inside⟩, ends⟩

end Pulls

/-- Stepping on comes to the end of the text or to a fault. -/
theorem exists_pulls (r : TokenReader) : ∃ tokens outcome, r.Pulls tokens outcome := by
  induction length : r.scanner.rest.length using Nat.strongRecOn generalizing r with
  | ind n ih =>
    subst length
    by_cases ended : r.current.token = .eof
    · exact ⟨_, _, .ended ended⟩
    · cases found : r.scanner.next with
      | mk result behind =>
        cases result with
        | error fault => exact ⟨_, _, .failed ended (advance_of_next_error ended found)⟩
        | ok lexeme =>
          have call := advance_of_next_ok ended found
          -- at the end nothing is taken off the text, but there the reader stays
          by_cases last : lexeme.token = .eof
          · exact ⟨_, _, .stepped ended call (.ended last)⟩
          · have less := Scanner.length_rest_next_lt found last
            obtain ⟨tokens, outcome, later⟩ :=
              ih behind.rest.length less { r with scanner := behind, current := lexeme } rfl
            exact ⟨_, _, .stepped ended call later⟩

/-! ### One token after the other -/

/-- The reader after some tokens were asked for. -/
def afterCalls (r : TokenReader) : Nat → TokenReader
  | 0 => r
  | n + 1 => r.next.2.afterCalls n

/-- What is handed out of the tokens that are pulled. -/
def handedOut (tokens : List Lexeme) : Option ScanFault → List (Except ScanFault Lexeme)
  | none => tokens.map .ok
  | some fault => tokens.dropLast.map .ok ++ [.error fault]

theorem handedOut_cons (token : Lexeme) (some_token : tokens ≠ []) :
    handedOut (token :: tokens) outcome = .ok token :: handedOut tokens outcome := by
  cases outcome with
  | none => rfl
  | some fault => rw [handedOut, List.dropLast_cons_of_ne_nil some_token]; rfl

theorem next_of_exhausted (done : r.exhausted = true) : r.next = (none, r) := by
  rw [next, if_pos done]

theorem next_of_eof (fresh : r.exhausted = false) (last : r.current.token = .eof) :
    r.next = (some (.ok r.current), { r with exhausted := true }) := by
  simp [next, fresh, last]

theorem next_of_advance_ok (fresh : r.exhausted = false) (more : r.current.token ≠ .eof)
    (call : r.advance = (.ok (), r')) : r.next = (some (.ok r.current), r') := by
  simp [next, fresh, more, call]

theorem next_of_advance_error {fault : ScanFault} (fresh : r.exhausted = false)
    (more : r.current.token ≠ .eof) (call : r.advance = (.error fault, r')) :
    r.next = (some (.error fault), { r' with exhausted := true }) := by
  simp [next, fresh, more, call]

theorem exhausted_advance (r : TokenReader) : r.advance.2.exhausted = r.exhausted := by
  fun_cases advance r <;> rfl

theorem next_afterCalls_of_exhausted (done : r.exhausted = true) (n : Nat) :
    (r.afterCalls n).next.1 = none := by
  induction n with
  | zero => exact congrArg Prod.fst (next_of_exhausted done)
  | succ n ih =>
    rw [afterCalls, next_of_exhausted done]
    exact ih

/-- The reader hands out what is pulled from it, in order, and nothing behind that. -/
theorem next_afterCalls (pulled : r.Pulls tokens outcome) (fresh : r.exhausted = false) (n : Nat) :
    (r.afterCalls n).next.1 = (handedOut tokens outcome)[n]? := by
  induction pulled generalizing n with
  | @ended r last =>
    have first := next_of_eof fresh last
    cases n with
    | zero => rw [afterCalls, first]; rfl
    | succ n =>
      rw [afterCalls, first, next_afterCalls_of_exhausted rfl]
      rfl
  | @failed r r' fault more call =>
    have first := next_of_advance_error fresh more call
    cases n with
    | zero => rw [afterCalls, first]; rfl
    | succ n =>
      rw [afterCalls, first, next_afterCalls_of_exhausted rfl]
      rfl
  | @stepped r r' others outcome more call later ih =>
    have first := next_of_advance_ok fresh more call
    rw [handedOut_cons r.current later.ne_nil]
    cases n with
    | zero => rw [afterCalls, first]; rfl
    | succ n =>
      have fresh' : r'.exhausted = false := by
        rw [← fresh, ← r.exhausted_advance, call]
      rw [afterCalls, first]
      exact ih fresh' n

end TokenReader

/-- A reader on the first token of a text shows tokens up to the end of the text or to a
fault, in one way only. Without a fault, these tokens are handed out, the end of the text
once and last; with a fault, all of them but the last, and then the fault. Behind that
nothing is handed out, however often it is asked for. -/
theorem ofSource?_hands_out {source : String} {r : TokenReader}
    (opened : TokenReader.ofSource? source = .ok r) :
    ∃ front last outcome, (∀ tokens outcome', r.Pulls tokens outcome' ↔
        tokens = front ++ [last] ∧ outcome' = outcome) ∧
      (∀ l ∈ front, l.token ≠ .eof) ∧
      match outcome with
      | none => last.token = .eof ∧
          ∀ n, (r.afterCalls n).next.1 = ((front ++ [last]).map Except.ok)[n]?
      | some fault => last.token ≠ .eof ∧
          ∀ n, (r.afterCalls n).next.1 = (front.map Except.ok ++ [.error fault])[n]? := by
  have fresh : r.exhausted = false := by
    unfold TokenReader.ofSource? at opened
    split at opened <;> cases opened
    rfl
  obtain ⟨tokens, outcome, pulled⟩ := r.exists_pulls
  have answers := TokenReader.next_afterCalls pulled fresh
  obtain ⟨front, last, rfl, inside, ends⟩ := pulled.exists_last
  refine ⟨front, last, outcome, fun tokens outcome' => ⟨pulled.unique, ?_⟩, inside, ?_⟩
  · rintro ⟨rfl, rfl⟩
    exact pulled
  · cases outcome with
    | none => exact ⟨ends.2 rfl, answers⟩
    | some fault =>
      refine ⟨mt ends.1 (Option.some_ne_none fault), fun n => ?_⟩
      rw [answers, TokenReader.handedOut, List.dropLast_concat]

/-- The digits run into a letter: of the two tokens before them only the first is handed out,
and then the fault. -/
theorem ofSource?_hands_out_fault :
    let r : TokenReader := { scanner := ⟨" ; 12b".toList, 1⟩, current := ⟨.identifier "A", 1⟩ }
    TokenReader.ofSource? "A ; 12b" = .ok r ∧ r.next.1 = some (.ok ⟨.identifier "A", 1⟩) ∧
      (r.afterCalls 1).next.1 = some (.error ⟨.whitespaceRequired, "12", 1⟩) ∧
      ∀ n, (r.afterCalls (n + 2)).next.1 = none := by
  intro r
  have opened : TokenReader.ofSource? "A ; 12b" = .ok r := by rfl
  obtain ⟨front, last, outcome, pulls, -, answers⟩ := ofSource?_hands_out opened
  have pulled : r.Pulls ([⟨.identifier "A", 1⟩] ++ [⟨.mark .semicolon, 1⟩])
      (some ⟨.whitespaceRequired, "12", 1⟩) :=
    .stepped nofun rfl (.failed nofun rfl)
  obtain ⟨tokens, rfl⟩ := (pulls _ _).1 pulled
  obtain ⟨rfl, -⟩ := List.append_inj' tokens rfl
  exact ⟨opened, answers.2 0, answers.2 1, fun n => answers.2 (n + 2)⟩

end CoreLang
