import CoreLang.Proofs.LinesAhead
import CoreLang.Proofs.Tokenization

/-!
# The first token of a node

Going down from the root, the productions of the nodes tell which stretch of the text each
of them derives (`Tree.Stands`). The parse has noted for each node the line of the first
token of its stretch, at every depth and for the inner links of chains as for all others.
-/

namespace CoreLang

namespace Tree

/-- The text of the root is what stands `before` the tokens of a node, these tokens, and what
stands `after` them: under a node, each part stands where its production puts it. -/
inductive Stands (t : Tree) (spell : Symbol → String) (root : NodeId) :
    NodeId → List Terminal → List Terminal → Prop where
  | root : Stands t spell root root [] []
  | part {parent child : NodeId} {node : Node} {before after : List Terminal}
      {front back : List (Item NodeId)} (above : Stands t spell root parent before after)
      (here : t.node? parent = some node)
      (production : node.items spell = front ++ .part child :: back) :
    Stands t spell root child (before ++ front.flatMap (Item.text (t.yield spell)))
      (back.flatMap (Item.text (t.yield spell)) ++ after)

variable {t : Tree} {spell : Symbol → String} {root id : NodeId} {tag : Tag} {base : Nat}
  {d : Derivation Nat Symbol tag}

/-- What is reached from the root stands somewhere in its text. -/
theorem Reaches.exists_stands (h : t.Reaches root id) (spell : Symbol → String) :
    ∃ before after, t.Stands spell root id before after := by
  induction h with
  | root => exact ⟨_, _, .root⟩
  | part above kept ih =>
    obtain ⟨before, after, stands⟩ := ih
    obtain ⟨node, here, kept⟩ := kept
    obtain ⟨front, back, production⟩ := List.append_of_mem (Node.part_mem_items spell kept)
    exact ⟨_, _, .part stands here production⟩

/-- Some items of a stored production have the same tokens in the tree and in the
derivation. -/
theorem Lies.text_items (stored : t.Lies base (d.entries base))
    {items : List (Item Derivation.Located)}
    (among : items ⊆ Derivation.locatedItems (d.items spell) base) :
    (items.map (Item.map Derivation.Located.root)).flatMap (Item.text (t.yield spell)) =
      (items.map (Item.map Derivation.Located.part)).flatMap
        (Item.text fun p => p.2.yieldWith spell) := by
  obtain ⟨_, _, _, below⟩ := stored.joins
  rw [List.flatMap_map, List.flatMap_map]
  refine List.flatMap_congr fun item listed => ?_
  cases item with
  | token x => rfl
  | part p => exact (below p (Derivation.mem_located_of_item (among listed))).yield_eq spell

/-- The tokens of a stored node are those of its production. -/
theorem Lies.yield_root {node : Node} (spell : Symbol → String)
    (stored : t.Lies base (d.entries base)) (here : t.node? (d.root base) = some node) :
    t.yield spell (d.root base) = (node.items spell).flatMap (Item.text (t.yield spell)) := by
  obtain ⟨own, joins, top, _⟩ := stored.joins
  obtain rfl := Option.some.inj (top.symm.trans here)
  rw [stored.yield_eq spell, Derivation.yieldWith_eq, joins.items_eq spell,
    stored.text_items (List.Subset.refl _), Derivation.map_part_locatedItems]

/-- A node is the root of a stored derivation, and with the lines `ls` ahead the derivation
is read off. -/
def ReadAt (t : Tree) (spell : Symbol → String) (id : NodeId) (ls : List Nat) : Prop :=
  ∃ p : Derivation.Located, p.root = id ∧ t.Lies p.base p.entries ∧
    ∃ rest, Reads spell [.part p.part] ls rest

/-- If a node is read off, so is each part of it, behind the tokens in front of the part. -/
theorem ReadAt.part {parent child : NodeId} {node : Node} {front back : List (Item NodeId)}
    {ls : List Nat} (h : t.ReadAt spell parent ls) (here : t.node? parent = some node)
    (production : node.items spell = front ++ .part child :: back) :
    t.ReadAt spell child (ls.drop (front.flatMap (Item.text (t.yield spell))).length) := by
  obtain ⟨p, rfl, stored, rest, read⟩ := h
  obtain ⟨own, joins, top, below⟩ := Lies.joins stored
  obtain rfl := Option.some.inj (top.symm.trans here)
  rw [joins.items_eq spell] at production
  obtain ⟨items, others, same, rfl, behind⟩ := List.map_eq_append_iff.1 production
  obtain ⟨item, rest', rfl, this, -⟩ := List.map_eq_cons_iff.1 behind
  cases item with
  | token x => cases this
  | part q =>
  obtain rfl := Item.part.inj this
  have among : .part q ∈ Derivation.locatedItems (p.derivation.items spell) p.base := by
    rw [same]
    exact List.mem_append_right _ List.mem_cons_self
  have items_eq : p.derivation.items spell = items.map (Item.map Derivation.Located.part) ++
      .part q.part :: rest'.map (Item.map Derivation.Located.part) := by
    rw [← Derivation.map_part_locatedItems (p.derivation.items spell) p.base, same,
      List.map_append, List.map_cons]
    rfl
  refine ⟨q, rfl, below q (Derivation.mem_located_of_item among), ?_⟩
  rw [Lies.text_items stored (same ▸ List.subset_append_left _ _)]
  cases read with
  | part first inside _ =>
    rw [Derivation.Located.part, items_eq] at inside
    exact inside.split

/-- Along the way down a node stands in the text of the root, and is read off there. -/
theorem Stands.readAt {ls : List Nat} {before after : List Terminal}
    (h : t.Stands spell root id before after) (whole : t.ReadAt spell root ls) :
    t.yield spell root = before ++ (t.yield spell id ++ after) ∧
      t.ReadAt spell id (ls.drop before.length) := by
  induction h with
  | root => exact ⟨by simp, whole⟩
  | @part parent child node before after front back above here production ih =>
    obtain ⟨text, read⟩ := ih
    refine ⟨?_, ?_⟩
    · obtain ⟨p, rfl, stored, -⟩ := read
      have own : t.yield spell p.root = _ := Lies.yield_root spell stored here
      rw [text, own, production]
      simp
    · rw [List.length_append, ← List.drop_drop]
      exact read.part here production

/-- A node that is read off notes the first of the lines, and it has a token. -/
theorem ReadAt.line_eq {ls : List Nat} (h : t.ReadAt spell id ls) :
    ls.head? = some (t.line id) ∧ t.yield spell id ≠ [] := by
  obtain ⟨p, rfl, stored, rest, read⟩ := h
  have line : t.line p.root = p.derivation.note := Lies.line_eq stored
  have text : t.yield spell p.root = p.derivation.yieldWith spell := Lies.yield_eq spell stored
  rw [line, text, Derivation.yieldWith, ← Derivation.yield_map fun _ => ()]
  exact ⟨read.head, Derivation.yield_ne_nil _⟩

end Tree

/-! ### The lines of a text -/

namespace Spaced

theorem lexemes_append (before : List Char) (front rest : List Spaced) :
    lexemes before (front ++ rest) =
      lexemes before front ++ lexemes (before ++ front.flatMap text) rest := by
  induction front generalizing before with
  | nil => simp [lexemes]
  | cons p front ih => simp [lexemes, ih]

theorem length_lexemes (before : List Char) (parts : List Spaced) :
    (lexemes before parts).length = parts.length := by
  induction parts generalizing before with
  | nil => rfl
  | cons p parts ih => simp [lexemes, ih]

theorem map_terminal_lexemes (before : List Char) (parts : List Spaced) :
    (lexemes before parts).map Lexeme.terminal = parts.map (·.token.terminal) := by
  induction parts generalizing before with
  | nil => rfl
  | cons p parts ih => simp [lexemes, ih, Lexeme.terminal]

end Spaced

namespace Tokenization

theorem lexemes_ofSource {source : String} (w : Tokenization source.toList) :
    (TokenStream.ofSource source).lexemes = w.lexemes := by
  have scanned := TokenStream.ofScanner_parts w.apart w.blank []
  rw [w.text_eq] at scanned
  exact congrArg TokenStream.lexemes scanned

/-- The line of a token counts the line feeds in front of it. -/
theorem head?_drop_lines {text : List Char} {w : Tokenization text} {front rest : List Spaced}
    {first : Spaced} (parts : w.parts = front ++ first :: rest) :
    ((w.lexemes.map Lexeme.line).drop front.length).head? =
      some (1 + (front.flatMap Spaced.text ++ first.gap).count '\n') := by
  rw [lexemes, parts, Spaced.lexemes_append, List.map_append,
    List.drop_left' (by rw [List.length_map, Spaced.length_lexemes])]
  rfl

end Tokenization

theorem ParseState.lines_of_start {capacity : Nat} {stream : TokenStream} {s : ParseState}
    (solid : ∀ l ∈ stream.lexemes, l.token ≠ .eof) (h : start capacity stream = .ok s) :
    s.lines = stream.lexemes.map Lexeme.line := by
  obtain ⟨lexemes, ending⟩ := stream
  cases lexemes with
  | cons first rest =>
    obtain rfl := Except.ok.inj h
    have more : first.token ≠ .eof := solid first List.mem_cons_self
    simp [lines, ahead, more]
  | nil =>
    cases ending with
    | eof line =>
      obtain rfl := Except.ok.inj h
      simp [lines, ahead]
    | fault fault => cases h

/-- A parse reads its tree off the lines of the text, and the root derives the whole text. -/
theorem parse_readAt {source : String} {capacity : Nat} {parsed : Parsed}
    (accepted : parse source capacity = .ok parsed) :
    ∃ root, parsed.tree.WellShaped root ∧
      parsed.tree.ReadAt parsed.symbols.spell root
        ((TokenStream.ofSource source).lexemes.map Lexeme.line) ∧
      parsed.tree.yield parsed.symbols.spell root =
        (TokenStream.ofSource source).lexemes.map Lexeme.terminal ∧
      Nonempty (Tokenization source.toList) := by
  obtain ⟨s, p, s', begun, read, tree, table⟩ := exists_program_of_parse accepted
  obtain ⟨d, derives, fitting, shows⟩ := Parsed.shows_of_program begun read tree table
  have stored := Tree.lies_of_stored shows.stored
  have solid : ∀ l ∈ (TokenStream.ofSource source).lexemes, l.token ≠ .eof :=
    fun l hl => TokenStream.token_ne_eof hl
  have start := ParseState.starts solid begun
  refine ⟨p.derivation.root 0, Tree.wellShaped_of_stored shows.stored shows.root_eq, ?_, ?_, ?_⟩
  · have off := ParseM.program_readsOff parsed.symbols.spell _ start.ready.solid
      (ParseState.lines_of_start solid begun) read
    exact ⟨⟨0, _, p.derivation⟩, rfl, stored, _, off.2⟩
  · have shape := shows.shape_rename fitting.named
    rw [Program.derivation_rename] at shape
    have same : (p.derivation.rename parsed.symbols.spell).yield = d.yield := by
      rw [← shape, Derivation.yield_map]
    rw [stored.yield_eq, Derivation.yieldWith, same, ← derives.yield_eq]
    rfl
  · obtain ⟨line, whole⟩ := derives.whole
    exact TokenStream.exists_tokenization whole

/-- Every node of a parse holds the line of the first token of its stretch of the text. Each
node stands somewhere below the root, and wherever it does, the tokens of the text are those
before it, its own, of which there is a first one, and those after it; its line is one more
than the number of line feeds in front of the first one. -/
theorem parse_line_first {source : String} {capacity : Nat} {parsed : Parsed}
    (accepted : parse source capacity = .ok parsed) :
    ∃ root, parsed.tree.root = some root ∧ Nonempty (Tokenization source.toList) ∧
      (∀ id : NodeId, id.index < parsed.tree.size →
        ∃ before after, parsed.tree.Stands parsed.symbols.spell root id before after) ∧
      ∀ w : Tokenization source.toList, (TokenStream.ofSource source).lexemes = w.lexemes ∧
        ∀ id before after, parsed.tree.Stands parsed.symbols.spell root id before after →
          ∃ front first others back, w.parts = front ++ (first :: others ++ back) ∧
            front.map (·.token.terminal) = before ∧
            (first :: others).map (·.token.terminal) =
              parsed.tree.yield parsed.symbols.spell id ∧
            back.map (·.token.terminal) = after ∧
            parsed.tree.line id = 1 + (front.flatMap Spaced.text ++ first.gap).count '\n' := by
  obtain ⟨root, shaped, whole, text, tokens⟩ := parse_readAt accepted
  refine ⟨root, shaped.rooted, tokens, fun id within => (shaped.reached within).exists_stands _,
    fun w => ⟨w.lexemes_ofSource, fun id before after stands => ?_⟩⟩
  rw [w.lexemes_ofSource] at whole text
  obtain ⟨place, read⟩ := stands.readAt whole
  obtain ⟨line, nonempty⟩ := read.line_eq
  -- the tokens of the text come apart as those of the root do
  rw [text, Tokenization.lexemes, Spaced.map_terminal_lexemes] at place
  obtain ⟨front, rest, parts, rfl, behind⟩ := List.map_eq_append_iff.1 place
  obtain ⟨own, back, rfl, same, after_eq⟩ := List.map_eq_append_iff.1 behind
  obtain ⟨first, others, rfl⟩ := List.exists_cons_of_ne_nil
    (fun none : own = [] => nonempty (same ▸ none ▸ rfl))
  refine ⟨front, first, others, back, parts, rfl, same, after_eq, ?_⟩
  rw [List.length_map, Tokenization.head?_drop_lines parts] at line
  exact (Option.some.inj line).symm

/-- The links of a list, of a product and of a run of `!`, each on a line of its own. -/
theorem parse_line_first_of_chains :
    ∃ source, source =
        "program\nint X,\nY; begin\nX=2\n*X\n*(Y-\n1);\nwhile !\n!(X<=Y) loop read X; end; end" ∧
      ∃ parsed, parse source 45 = .ok parsed ∧
        parsed.tree.entries.toList.map Entry.line =
          [2, 3, 3, 2, 2, 2, 4, 4, 4, 5, 5, 6, 6, 6, 7, 7, 7, 7, 6, 6, 6, 5, 4, 4, 4, 4,
            9, 9, 9, 9, 9, 9, 9, 9, 8, 9, 9, 9, 9, 9, 8, 8, 8, 4, 1] ∧
        ∃ root, parsed.tree.root = some root ∧ Nonempty (Tokenization source.toList) ∧
          (∀ id : NodeId, id.index < parsed.tree.size →
            ∃ before after, parsed.tree.Stands parsed.symbols.spell root id before after) ∧
          ∀ w : Tokenization source.toList, (TokenStream.ofSource source).lexemes = w.lexemes ∧
            ∀ id before after, parsed.tree.Stands parsed.symbols.spell root id before after →
              ∃ front first others back, w.parts = front ++ (first :: others ++ back) ∧
                front.map (·.token.terminal) = before ∧
                (first :: others).map (·.token.terminal) =
                  parsed.tree.yield parsed.symbols.spell id ∧
                back.map (·.token.terminal) = after ∧
                parsed.tree.line id =
                  1 + (front.flatMap Spaced.text ++ first.gap).count '\n' := by
  obtain ⟨parsed, accepted, lines⟩ := exists_parsed_such
    "program\nint X,\nY; begin\nX=2\n*X\n*(Y-\n1);\nwhile !\n!(X<=Y) loop read X; end; end"
    45 (fun parsed => parsed.tree.entries.toList.map Entry.line ==
      [2, 3, 3, 2, 2, 2, 4, 4, 4, 5, 5, 6, 6, 6, 7, 7, 7, 7, 6, 6, 6, 5, 4, 4, 4, 4,
        9, 9, 9, 9, 9, 9, 9, 9, 8, 9, 9, 9, 9, 9, 8, 8, 8, 4, 1]) (by decide +kernel)
  exact ⟨_, rfl, parsed, accepted, eq_of_beq lines, parse_line_first accepted⟩

end CoreLang
