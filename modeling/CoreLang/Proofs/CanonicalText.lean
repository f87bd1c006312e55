import CoreLang.Proofs.RoundTrip
import CoreLang.Proofs.Tokenization

/-!
# The canonical text stands for the tokens

What a token says is its kind with a value or a name; how it is laid out, on which line it
stands and how many zeros it starts with say nothing. The canonical text of a parsed
program says what the text of the program does. Since no two derivations say the same
(`Derives.unique`), programs have the same canonical text exactly if their texts say the
same.
-/

namespace CoreLang

/-! ### What tokens say -/

/-- The kind of a token, its value and its name. -/
def Lexeme.content (l : Lexeme) : Kind × Option Int64 × Option String :=
  (l.kind, l.token.value?, l.token.name?)

def Terminal.content : Terminal → Kind × Option Int64 × Option String
  | .keyword word => (.keyword word, none, none)
  | .mark sign => (.mark sign, none, none)
  | .integer value => (.integer, some value, none)
  | .identifier name => (.identifier, none, some name)
  | .eof => (.eof, none, none)

theorem Lexeme.content_eq (l : Lexeme) : l.content = l.terminal.content := by
  obtain ⟨token, line⟩ := l
  cases token <;> rfl

theorem Terminal.content_inj {a b : Terminal} (same : a.content = b.content) : a = b := by
  cases a <;> cases b <;> simp_all [content]

/-- Tokens say the same exactly if the grammar sees the same. -/
theorem map_content_eq_iff {l l' : List Lexeme} :
    l.map Lexeme.content = l'.map Lexeme.content ↔
      l.map Lexeme.terminal = l'.map Lexeme.terminal := by
  have split (l : List Lexeme) :
      l.map Lexeme.content = (l.map Lexeme.terminal).map Terminal.content := by
    rw [List.map_map]
    exact List.map_congr_left fun lexeme _ => lexeme.content_eq
  rw [split l, split l']
  exact List.map_inj_right fun a b => Terminal.content_inj

/-- A text that is derived is read to its end, as what is derived. -/
theorem Derives.exists_lexes {d : Derivation Unit String .program} {source : String}
    (h : Derives d source) :
    ∃ lexemes, Lexes source lexemes ∧ lexemes.map Lexeme.terminal = d.yield ++ [.eof] := by
  obtain ⟨⟨line, whole⟩, yields⟩ := h
  refine ⟨_, lexes_iff.2 ⟨⟨line, whole⟩, rfl⟩, ?_⟩
  rw [TokenStream.withEnd, whole, List.map_append, ← yields]
  rfl

/-! ### One derivation for a text -/

theorem Derivation.Fitting.mono {d : Derivation Unit String .program} {capacity capacity' : Nat}
    (h : d.Fitting capacity) (more : capacity ≤ capacity') : d.Fitting capacity' :=
  ⟨h.named, Nat.le_trans h.small more, h.shallow⟩

/-- A text has one derivation in good order. -/
theorem Derives.unique {d e : Derivation Unit String .program} {source : String}
    {capacity capacity' : Nat} (derives : Derives d source) (derives' : Derives e source)
    (fitting : d.Fitting capacity) (fitting' : e.Fitting capacity')
    (numbered : d.size ≤ NodeId.limit) (numbered' : e.size ≤ NodeId.limit) : d = e := by
  -- with room for both, the text is parsed, and a parse shows the one as well as the other
  obtain ⟨parsed, p, accepted, shows⟩ :=
    exists_parse derives (fitting.mono (Nat.le_max_left capacity capacity')) numbered
  obtain ⟨again, q, accepted', shows'⟩ :=
    exists_parse derives' (fitting'.mono (Nat.le_max_right capacity capacity')) numbered'
  obtain rfl := Except.ok.inj (accepted.symm.trans accepted')
  have retrieved := shows.toProgram_eq fitting.named
  have same := Except.ok.inj (retrieved.symm.trans (shows'.toProgram_eq fitting'.named))
  rw [← shows.shape_rename fitting.named, same, shows'.shape_rename fitting'.named]

/-- A parsed program is printed, and its canonical text is read to its end as tokens that
say what those of the program's own text do. Two parsed programs have the same canonical
text exactly if the tokens of their own texts say the same. -/
theorem render_eq_iff_content_eq {source source' : String} {capacity capacity' : Nat}
    {parsed parsed' : Parsed} (accepted : parse source capacity = .ok parsed)
    (accepted' : parse source' capacity' = .ok parsed') :
    ∃ text text' lexemes lexemes', parsed.tree.render parsed.symbols = .ok text ∧
      parsed'.tree.render parsed'.symbols = .ok text' ∧
      Lexes source lexemes ∧ Lexes source' lexemes' ∧
      (∃ again, Lexes text again ∧ again.map Lexeme.content = lexemes.map Lexeme.content) ∧
      (text = text' ↔ lexemes.map Lexeme.content = lexemes'.map Lexeme.content) := by
  obtain ⟨d, p, derives, fitting, shows⟩ := parse_sound accepted
  obtain ⟨e, q, derives', fitting', shows'⟩ := parse_sound accepted'
  obtain ⟨lexemes, read, said⟩ := derives.exists_lexes
  obtain ⟨lexemes', read', said'⟩ := derives'.exists_lexes
  obtain ⟨again, reread, resaid⟩ := (shows.derives_render fitting.named derives).exists_lexes
  refine ⟨_, _, lexemes, lexemes', shows.render_eq fitting.named, shows'.render_eq fitting'.named,
    read, read', ⟨again, reread, map_content_eq_iff.2 (resaid.trans said.symm)⟩, ?_⟩
  rw [map_content_eq_iff, said, said', List.append_cancel_right_eq]
  constructor
  · intro same
    have one := shows.derives_render fitting.named derives
    have other := shows'.derives_render fitting'.named derives'
    rw [← one.yield_eq, ← other.yield_eq, same]
  · intro same
    have moved : Derives e source := ⟨derives.whole, derives.yield_eq.trans same⟩
    obtain rfl := derives.unique moved fitting fitting' shows.size_le_limit shows'.size_le_limit
    exact Program.render_eq
      ((shows.shape_rename fitting.named).trans (shows'.shape_rename fitting'.named).symm)

theorem render_eq_iff_content_eq_zeros :
    ∃ parsed parsed' text again,
      parse "program int A;begin A=(007);write A;end" 40 = .ok parsed ∧
      parse "program int A; begin\n A = ( 7 ) ;\nwrite A; end" 50 = .ok parsed' ∧
      parsed.tree.render parsed.symbols = .ok text ∧
      parsed'.tree.render parsed'.symbols = .ok text ∧ Lexes text again := by
  obtain ⟨parsed, accepted⟩ :=
    exists_parsed "program int A;begin A=(007);write A;end" 40 (by decide +kernel)
  obtain ⟨parsed', accepted'⟩ :=
    exists_parsed "program int A; begin\n A = ( 7 ) ;\nwrite A; end" 50 (by decide +kernel)
  obtain ⟨text, text', lexemes, lexemes', rendered, rendered', read, read', ⟨again, reread, _⟩,
    same⟩ := render_eq_iff_content_eq accepted accepted'
  obtain rfl : text = text' := by
    rw [same, (lexes_iff.1 read).2, (lexes_iff.1 read').2]
    decide +kernel
  exact ⟨parsed, parsed', text, again, accepted, accepted', rendered, rendered', reread⟩

end CoreLang
