import CoreLang.Proofs.Acceptance
import CoreLang.Proofs.ParseViability

/-!
# The first wrong token

A text is `Valid` if a derivation whose names are in order yields its tokens. A parse that
blames a token blames the first one that is wrong: the tokens before it begin some valid
text, and those up to it begin none. Where the scanner stops the parse, the tokens before the
fault begin a valid text as well, so no wrong token is passed over for the fault.
-/

namespace CoreLang

open ParseM Future

/-- The tokens of a program whose names are in order, and the end of the text. -/
def Valid (tokens : List Terminal) : Prop :=
  ∃ d : Derivation Unit String .program, d.WellNamed ∧ tokens = d.yield ++ [.eof]

/-- What may follow at the start of a text are the valid texts. -/
theorem wholeText_nil : wholeText [] = Valid := by
  funext tokens
  refine propext ⟨?_, ?_⟩
  · rintro ⟨_, rfl, decls, _, distinct, ⟨_, rfl, stmts, _, known, ⟨_, rfl, rfl⟩, rfl⟩, rfl⟩
    exact ⟨.program () decls stmts, ⟨distinct, known⟩, by simp⟩
  · rintro ⟨d, named, rfl⟩
    cases d with
    | program _ decls stmts =>
      exact ⟨_, rfl, decls, _, named.distinct, ⟨_, rfl, stmts, _, named.known, ⟨_, rfl, rfl⟩, rfl⟩,
        by simp⟩

/-- There is a valid text. -/
theorem live_valid : Live Valid := by
  rw [← wholeText_nil]
  refine live_tok trivial (Alive.declares (fun _ => rfl) ?_ List.nodup_nil nofun)
  exact .tok trivial (Alive.uses (.tok trivial .done))

/-- A parse starts with all the tokens of the text ahead. -/
theorem ParseState.start_ahead {capacity : Nat} {stream : TokenStream} {s : ParseState}
    (solid : ∀ l ∈ stream.lexemes, l.token ≠ .eof) (h : start capacity stream = .ok s) :
    s.ahead = stream.lexemes ∧ (s.lookahead.token = .eof → s.ending = .eof s.lookahead.line) := by
  obtain ⟨lexemes, ending⟩ := stream
  cases lexemes with
  | cons first others =>
    obtain rfl := Except.ok.inj h
    have more : first.token ≠ .eof := solid first List.mem_cons_self
    exact ⟨if_neg more, fun ended => absurd ended more⟩
  | nil =>
    cases ending with
    | eof line =>
      obtain rfl := Except.ok.inj h
      exact ⟨if_pos rfl, fun _ => rfl⟩
    | fault fault => cases h

section Parse

variable {source : String} {capacity : Nat} {s : ParseState} {e : ParseError}

theorem ParseState.sane_start (addressable : capacity ≤ NodeId.limit)
    (begun : start capacity (TokenStream.ofSource source) = .ok s) : s.Sane := by
  have solid : ∀ l ∈ (TokenStream.ofSource source).lexemes, l.token ≠ .eof :=
    fun l hl => TokenStream.token_ne_eof hl
  have starts := ParseState.starts solid begun
  refine ⟨starts.ready, (start_ahead solid begun).2, ?_, ?_, ?_, ?_⟩
  · rw [names, starts.symbols]
    exact Nat.zero_le _
  · rw [starts.budget]
    exact addressable
  · rw [starts.text]
    exact fun t among => TokenStream.written_of_mem among
  · rw [names, starts.symbols]
    exact fun x among => absurd among List.not_mem_nil

/-- A parse fails before its first token, where reading the text fails, or for want of room. -/
theorem exists_read_error (failed : parse source capacity = .error e) :
    (∃ fault, TokenStream.ofSource source = ⟨[], .fault fault⟩ ∧ e = .ofScan fault) ∨
      (∃ s t, ParseState.start capacity (TokenStream.ofSource source) = .ok s ∧
        ParseM.program s = .error e t) ∨
      ∃ error, e = .tree error := by
  rcases parse_eq_error failed with fault | ⟨u, t, begun, stopped⟩
  · exact .inl fault
  · rcases parse_cases begun with ⟨p, t, tree, -, -, accepted⟩ | ⟨e', t, read, failed'⟩ | ⟨-, full⟩
    · cases failed.symm.trans accepted
    · obtain rfl := Except.error.inj (failed.symm.trans failed')
      exact .inr (.inl ⟨u.view, t, ParseState.startWith_view begun, read⟩)
    · exact .inr (.inr ⟨_, Except.error.inj (failed.symm.trans full)⟩)

end Parse

/-- A parse blames the first wrong token. If it stops at a token, then the text has a token,
its end counted as one, with the reported text and line, such that the tokens before it begin
some valid text and those up to it begin none. If it stops at a fault of the scanner, the
tokens before the fault begin some valid text. -/
theorem parse_blames_first_wrong {source : String} {capacity : Nat} {e : ParseError}
    (addressable : capacity ≤ NodeId.limit) (failed : parse source capacity = .error e) :
    (∀ text line, e.blamed? = some (text, line) →
      Blames Valid (TokenStream.ofSource source).withEnd text line) ∧
    (e.IsLexical → ∃ fault, (TokenStream.ofSource source).ending = .fault fault ∧
      e = .ofScan fault ∧ Live fun u => Valid ((TokenStream.ofSource source).terminals ++ u)) := by
  rcases exists_read_error failed with ⟨fault, stream, rfl⟩ | ⟨s, t, begun, stopped⟩ | ⟨error, rfl⟩
  · refine ⟨fun text line named => ?_, fun _ => ⟨fault, by rw [stream], rfl, ?_⟩⟩
    · rw [ParseError.blamed?_ofScan] at named
      cases named
    · rw [stream]
      exact live_valid
  · have solid : ∀ l ∈ (TokenStream.ofSource source).lexemes, l.token ≠ .eof :=
      fun l hl => TokenStream.token_ne_eof hl
    have starts := ParseState.starts solid begun
    have future : wholeText s.names = Valid := by
      rw [ParseState.names, starts.symbols]
      exact wholeText_nil
    have heeded := program_heeds (ParseState.sane_start addressable begun) (future ▸ live_valid)
    rw [stopped] at heeded
    have blamed : Stopped wholeText s e := heeded
    refine ⟨fun text line named => ?_, fun scanning => ?_⟩
    · have blames := blamed.blames named
      rwa [future, ParseState.rest, (ParseState.start_ahead solid begun).1, starts.ending] at blames
    · obtain ⟨fault, ending, cause, live⟩ := blamed.lexical scanning
      rw [future, starts.text] at live
      exact ⟨fault, starts.ending ▸ ending, cause, live⟩
  · refine ⟨fun text line named => ?_, fun scanning => ?_⟩
    · cases named
    · cases scanning

theorem parse_blames_first_wrong_paren :
    200 ≤ NodeId.limit ∧
      parse "program int A,B; begin\nwhile (A<B) loop A=(A+1; end; end" 200
        = .error (.unexpected .closeParen ";" 2) ∧
      Blames Valid (TokenStream.ofSource
        "program int A,B; begin\nwhile (A<B) loop A=(A+1; end; end").withEnd ";" 2 ∧
      parse "program int A; begin if (A<1) then A=?" 200 = .error (.invalidToken "?" 1) ∧
      Live fun u => Valid ((TokenStream.ofSource
        "program int A; begin if (A<1) then A=?").terminals ++ u) := by
  have failed : parse "program int A,B; begin\nwhile (A<B) loop A=(A+1; end; end" 200
      = .error (.unexpected .closeParen ";" 2) := by
    decide +kernel
  have failed' : parse "program int A; begin if (A<1) then A=?" 200
      = .error (.invalidToken "?" 1) := by
    decide +kernel
  obtain ⟨-, -, -, live⟩ := (parse_blames_first_wrong (by decide) failed').2 trivial
  exact ⟨by decide, failed, (parse_blames_first_wrong (by decide) failed).1 ";" 2 rfl, failed', live⟩

end CoreLang
