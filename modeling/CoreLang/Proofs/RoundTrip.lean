import CoreLang.Proofs.Acceptance
import CoreLang.Proofs.Printing

/-!
# Printing and parsing again

The canonical text of a parsed program is parsed at the same capacity, into the same
nodes under the same numbers. So printing is a fixed point of parsing and printing.
-/

namespace CoreLang

/-- The canonical text of a program derives what the program does. -/
theorem derives_render {p : Program String}
    (written : ∀ t ∈ p.derivation.yield, t.Written) : Derives p.derivation.shape p.render := by
  have scanned : Scans p.render.toList p.derivation.yield := by
    have := Scans.text 0 .done (d := p.derivation) nofun written
    rwa [List.append_nil, List.append_nil, ← p.toList_render] at this
  obtain ⟨tokens, whole⟩ := scanned.stream 1
  exact ⟨whole, tokens.trans (Derivation.yield_map ..).symm⟩

/-- Programs of one shape are stored as the same nodes, under the same numbers. -/
theorem Tree.nodes_eq_of_stored {t t' : Tree} {capacity capacity' : Nat} {p q : Program Symbol}
    (stored : ofProgram capacity p = .ok t) (stored' : ofProgram capacity' q = .ok t')
    (same : q.derivation.shape = p.derivation.shape) :
    t'.entries.map Entry.node = t.entries.map Entry.node ∧ t'.root = t.root := by
  obtain ⟨_, _, tree⟩ := ofProgram_eq_ok_iff.1 stored
  obtain ⟨_, _, tree'⟩ := ofProgram_eq_ok_iff.1 stored'
  have size : q.derivation.size = p.derivation.size := by
    have := congrArg Derivation.size same
    simpa using this
  constructor
  · rw [tree, tree']
    simpa using Derivation.map_node_entries_eq same 0
  · rw [tree, tree', Derivation.root, Derivation.root, size]

namespace Parsed.Shows

variable {parsed again : Parsed} {capacity : Nat} {d : Derivation Unit String .program}
  {p q : Program Symbol}

/-- The canonical text of a parse derives what the text of the parse does. -/
theorem derives_render {source : String} (h : parsed.Shows capacity d p) (named : d.WellNamed)
    (derives : Derives d source) : Derives d (p.rename parsed.symbols.spell).render := by
  have shape := h.shape_rename named
  have written := derives.written
  rw [← shape, Derivation.yield_map] at written
  exact shape ▸ CoreLang.derives_render written

/-- Two parses of one derivation have the same symbols. -/
theorem symbols_eq (h : parsed.Shows capacity d p) (h' : again.Shows capacity d q) :
    again.symbols = parsed.symbols :=
  SymbolTable.ext_names (h'.names_eq.trans h.names_eq.symm)

/-- Two parses of one derivation have the same nodes, under the same numbers. -/
theorem nodes_eq (h : parsed.Shows capacity d p) (h' : again.Shows capacity d q) :
    again.tree.entries.map Entry.node = parsed.tree.entries.map Entry.node ∧
      again.tree.root = parsed.tree.root := by
  refine Tree.nodes_eq_of_stored h.tree_eq h'.tree_eq ?_
  rw [h.shape_eq, h'.shape_eq, h.symbols_eq h']

end Parsed.Shows

/-- A parsed program is printed, its text is parsed at the same capacity, with the same
nodes, root and symbols, and printed again it is the same text. Only lines can differ. -/
theorem parse_render_fixed {source : String} {capacity : Nat} {parsed : Parsed}
    (accepted : parse source capacity = .ok parsed) :
    ∃ text, parsed.tree.render parsed.symbols = .ok text ∧
      ∃ again, parse text capacity = .ok again ∧
        again.tree.entries.map Entry.node = parsed.tree.entries.map Entry.node ∧
        again.tree.root = parsed.tree.root ∧ again.symbols.names = parsed.symbols.names ∧
        again.tree.render again.symbols = .ok text := by
  obtain ⟨d, p, derives, fitting, shows⟩ := parse_sound accepted
  have shape := shows.shape_rename fitting.named
  have derives' : Derives d (p.rename parsed.symbols.spell).render := by
    have written := derives.written
    rw [← shape, Derivation.yield_map] at written
    exact shape ▸ derives_render written
  have numbered : d.size ≤ NodeId.limit := by
    obtain ⟨_, numbered, _⟩ := Tree.ofProgram_eq_ok_iff.1 shows.tree_eq
    have := congrArg Derivation.size shows.shape_eq
    rw [Derivation.size_map, Derivation.size_map] at this
    rwa [← this]
  obtain ⟨again, q, accepted', shows'⟩ := exists_parse derives' fitting numbered
  obtain ⟨nodes, root⟩ := shows.nodes_eq shows'
  refine ⟨_, shows.render_eq fitting.named, again, accepted', nodes, root,
    congrArg SymbolTable.names (shows.symbols_eq shows'), ?_⟩
  rw [shows'.render_eq fitting.named]
  exact congrArg Except.ok
    (Program.render_eq ((shows'.shape_rename fitting.named).trans shape.symm))

theorem parse_render_fixed_loop :
    ∃ parsed, parse "program int I0;int B;begin while !(I0>=007)loop B=(B-1)*2-I0;end;end" 60
        = .ok parsed ∧
      ∃ text, parsed.tree.render parsed.symbols = .ok text ∧
        ∃ again, parse text 60 = .ok again ∧
          again.tree.entries.map Entry.node = parsed.tree.entries.map Entry.node ∧
          again.tree.root = parsed.tree.root ∧ again.symbols.names = parsed.symbols.names ∧
          again.tree.render again.symbols = .ok text := by
  obtain ⟨parsed, accepted⟩ := exists_parsed
    "program int I0;int B;begin while !(I0>=007)loop B=(B-1)*2-I0;end;end" 60 (by decide +kernel)
  exact ⟨parsed, accepted, parse_render_fixed accepted⟩

end CoreLang
