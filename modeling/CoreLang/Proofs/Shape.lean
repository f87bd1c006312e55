import Mathlib.Data.List.Nodup
import Mathlib.Data.List.Perm.Basic
import CoreLang.Proofs.Acceptance
import CoreLang.Proofs.Parts

/-!
# The shape of a parsed tree

The numbered nodes of a parse form a tree in the strict sense: every node but the
root stands in one slot of one other node, which has a greater number and whose
production wants its tag there. The leaves agree with the symbol table, and below
the declarations they tell its symbols in order.
-/

namespace CoreLang

namespace Tree

/-- The child stands in the slot of the parent. -/
def Keeps (t : Tree) (parent : NodeId) (slot : Slot) (child : NodeId) : Prop :=
  ∃ node, t.node? parent = some node ∧ node.child? slot = some child

/-- The nodes that are met on the way down from `root`. -/
inductive Reaches (t : Tree) (root : NodeId) : NodeId → Prop where
  | root : Reaches t root root
  | part {parent child : NodeId} {slot : Slot} (above : Reaches t root parent)
      (kept : t.Keeps parent slot child) : Reaches t root child

/-- The symbols of the identifier leaves below a node, from left to right. Only parts
with smaller numbers are looked into. -/
def symbolsBelow (t : Tree) (id : NodeId) : List Symbol :=
  match t.node? id with
  | none => []
  | some node =>
    node.symbols ++ node.kept.flatMap fun part =>
      if part.2.index < id.index then t.symbolsBelow part.2 else []
termination_by id.index

end Tree

namespace Derivation

variable {tag : Tag}

/-- The numbers that stand in the slots of some nodes. -/
def keptIn (entries : List Entry) : List NodeId :=
  entries.flatMap fun entry => entry.node.kept.map Prod.snd

/-- Each node but the root is kept once: the numbers in all slots, together with that of
the root, are all numbers. -/
theorem keptIn_perm (d : Derivation Nat Symbol tag) (base : Nat) :
    (keptIn (d.entries base) ++ [d.root base]).Perm
      ((List.range' base d.size).map NodeId.mk) := by
  induction d using by_parts generalizing base with
  | step d ih =>
  obtain ⟨node, joins⟩ := d.exists_joins base
  have own : keptIn (d.entries base) = (located d.parts base).flatMap (keptIn ∘ Located.entries) ++
      (located d.parts base).flatMap fun part => [part.root] := by
    rw [keptIn, joins.entries_eq, List.flatMap_append, List.flatMap_assoc, List.flatMap_singleton,
      joins.map_snd_kept, List.map_eq_flatMap]
    rfl
  have below : ((located d.parts base).flatMap fun part =>
        keptIn part.entries ++ [part.root]).Perm
      ((List.range' base (sizes d.parts)).map NodeId.mk) := by
    rw [← flatMap_range_located, List.map_flatMap]
    exact List.Perm.flatMap_left _ fun part among => ih _ (mem_located among).1 part.base
  have joined := ((List.flatMap_append_perm ..).trans below).append_right [d.root base]
  rw [own, size_eq, List.range'_1_concat, List.map_append, List.map_singleton, ← root_eq]
  exact joined

end Derivation

namespace Tree

variable {t : Tree} {tag : Tag} {base : Nat} {d : Derivation Nat Symbol tag}

theorem Lies.parts {parts : List ((tag : Tag) × Derivation Nat Symbol tag)}
    (stored : t.Lies base ((Derivation.located parts base).flatMap Derivation.Located.entries)) :
    ∀ part ∈ Derivation.located parts base, t.Lies part.base part.entries := by
  induction parts generalizing base with
  | nil => simp [Derivation.located]
  | cons first rest ih =>
    rw [Derivation.located, List.flatMap_cons] at stored
    have others := stored.right
    rw [Derivation.Located.entries, Derivation.length_entries] at others
    intro part among
    rcases List.mem_cons.1 among with rfl | among
    · exact stored.left
    · exact ih others part among

theorem At.node?_eq {id : NodeId} {node : Node} {line : Nat} (h : t.At id node line) :
    t.node? id = some node := by
  have found : t.entries[id.index]? = some ⟨node, line⟩ := h
  rw [node?, found]
  rfl

/-- A stored derivation has a node under its root, and its parts are stored. -/
theorem Lies.joins (stored : t.Lies base (d.entries base)) :
    ∃ node, d.Joins base node ∧ t.node? (d.root base) = some node ∧
      ∀ part ∈ Derivation.located d.parts base, t.Lies part.base part.entries := by
  obtain ⟨node, joins⟩ := d.exists_joins base
  have length : ((Derivation.located d.parts base).flatMap Derivation.Located.entries).length =
      Derivation.sizes d.parts := by
    have := congrArg List.length joins.entries_eq
    rw [Derivation.length_entries, List.length_append, Derivation.size_eq] at this
    simpa using this.symm
  rw [joins.entries_eq] at stored
  have top := stored.at_root
  rw [length, ← Derivation.root_eq] at top
  exact ⟨node, joins, top.node?_eq, Lies.parts stored.left⟩

/-- What stands in a slot of a stored derivation is a node with a smaller number, of the
tag that is wanted there. -/
theorem Lies.keeps (stored : t.Lies base (d.entries base)) {parent child : NodeId} {slot : Slot}
    {node : Node} (after : base ≤ parent.index) (before : parent.index < base + d.size)
    (here : t.node? parent = some node) (kept : node.child? slot = some child) :
    child.index < parent.index ∧
      ∃ part, t.node? child = some part ∧ node.wanted slot = some part.tag := by
  induction d using Derivation.by_parts generalizing base with
  | step d ih =>
  obtain ⟨own, joins, top, below⟩ := stored.joins
  by_cases last : parent.index = base + Derivation.sizes d.parts
  · obtain rfl : parent = d.root base := by
      rw [Derivation.root_eq, ← last]
    obtain rfl := Option.some.inj (top.symm.trans here)
    have listed : (own.wanted slot, child) ∈
        (Derivation.located d.parts base).map fun part => (some part.tag, part.root) := by
      rw [← joins.kept_eq]
      exact List.mem_map.2 ⟨(slot, child), Node.mem_kept_iff.2 kept, rfl⟩
    obtain ⟨part, among, same⟩ := List.mem_map.1 listed
    obtain ⟨wanted, rfl⟩ := Prod.mk.inj same
    obtain ⟨-, -, early⟩ := Derivation.mem_located among
    obtain ⟨inner, joins', found, -⟩ := (below part among).joins
    refine ⟨?_, inner, found, ?_⟩
    · have := part.root_lt
      omega
    · rw [← wanted, joins'.tag_eq]
  · rw [Derivation.size_eq] at before
    have early : parent.index < base + Derivation.sizes d.parts := by omega
    obtain ⟨part, among, inside⟩ := Derivation.exists_located after early
    exact ih ⟨part.tag, part.derivation⟩ (Derivation.mem_located among).1 (below part among)
      inside.1 inside.2

theorem Lies.symbolsBelow_eq (stored : t.Lies base (d.entries base)) :
    t.symbolsBelow (d.root base) = d.vars := by
  induction d using Derivation.by_parts generalizing base with
  | step d ih =>
  obtain ⟨node, joins, top, below⟩ := stored.joins
  have each : ∀ part ∈ Derivation.located d.parts base,
      (if part.root.index < (d.root base).index then t.symbolsBelow part.root else []) =
        part.derivation.vars := by
    intro part among
    obtain ⟨listed, -, early⟩ := Derivation.mem_located among
    have := part.root_lt
    rw [Derivation.root_eq, if_pos (by simp only; omega)]
    exact ih _ listed (below part among)
  have kept : (node.kept.flatMap fun part =>
      if part.2.index < (d.root base).index then t.symbolsBelow part.2 else []) =
        (node.kept.map Prod.snd).flatMap fun id =>
          if id.index < (d.root base).index then t.symbolsBelow id else [] := by
    rw [List.flatMap_map]
  rw [symbolsBelow, top]
  simp only
  rw [kept, joins.map_snd_kept, List.flatMap_map, joins.vars_eq, List.flatMap_congr each,
    Derivation.flatMap_vars_located]

end Tree

theorem Derivation.mem_yield_of_int {tag : Tag} {d : Derivation Nat Symbol tag} {base line : Nat}
    {value : Int64} (spell : Symbol → String) (h : ⟨.int value, line⟩ ∈ d.entries base) :
    .integer value ∈ (d.rename spell).yield := by
  induction d generalizing base <;>
    simp only [entries, List.mem_append, List.mem_singleton, Entry.mk.injEq, reduceCtorEq,
      false_and, or_false, Node.int.injEq] at h <;>
    simp only [map, yield, List.mem_append, List.mem_cons, List.not_mem_nil] <;> grind

theorem Derivation.symbols_subset_vars {tag : Tag} {d : Derivation Nat Symbol tag} {base : Nat}
    {entry : Entry} (h : entry ∈ d.entries base) : entry.node.symbols ⊆ d.vars := by
  induction d using by_parts generalizing base with
  | step d ih =>
  obtain ⟨node, joins⟩ := d.exists_joins base
  rw [joins.entries_eq] at h
  rw [joins.vars_eq]
  rcases List.mem_append.1 h with h | h
  · obtain ⟨part, among, h⟩ := List.mem_flatMap.1 h
    obtain ⟨listed, -, -⟩ := mem_located among
    intro symbol hs
    exact List.mem_append_right _ (List.mem_flatMap.2 ⟨_, listed, ih _ listed h hs⟩)
  · obtain rfl := List.mem_singleton.1 h
    exact List.subset_append_left _ _

/-! ### The slots of a whole tree -/

namespace Tree

variable {t : Tree}

theorem node?_eq_some_iff {id : NodeId} {node : Node} :
    t.node? id = some node ↔ ∃ entry, t.entries.toList[id.index]? = some entry ∧ entry.node = node := by
  simp [node?]

/-- All slots that hold something: a parent, the slot and the child in it. -/
def slots (t : Tree) : List ((NodeId × Slot) × NodeId) :=
  t.entries.toList.zipIdx.flatMap fun place =>
    place.1.node.kept.map fun part => ((⟨place.2⟩, part.1), part.2)

theorem mem_slots_iff {place : NodeId × Slot} {child : NodeId} :
    (place, child) ∈ t.slots ↔ t.Keeps place.1 place.2 child := by
  simp only [slots, Keeps, node?_eq_some_iff, List.mem_flatMap, List.mem_map, Prod.exists,
    List.mem_zipIdx_iff_getElem?, Node.mem_kept_iff]
  constructor
  · rintro ⟨entry, i, found, slot, child, kept, same⟩
    obtain ⟨rfl, rfl⟩ := Prod.mk.inj same
    exact ⟨entry.node, ⟨entry, found, rfl⟩, kept⟩
  · rintro ⟨node, ⟨entry, found, rfl⟩, kept⟩
    exact ⟨entry, place.1.index, found, place.2, child, kept, rfl⟩

theorem map_snd_slots : t.slots.map Prod.snd = Derivation.keptIn t.entries.toList := by
  have nodes : t.entries.toList = t.entries.toList.zipIdx.map Prod.fst := by simp
  rw [slots, Derivation.keptIn, nodes, List.map_flatMap, List.flatMap_map, ← nodes]
  simp only [List.map_map]
  rfl

/-- The numbered nodes form one tree under `root`. -/
structure WellShaped (t : Tree) (root : NodeId) : Prop where
  rooted : t.root = some root
  last : root.index + 1 = t.size
  descends : ∀ {parent slot child}, t.Keeps parent slot child → child.index < parent.index
  tagged : ∀ {parent node slot child}, t.node? parent = some node →
    node.child? slot = some child →
      ∃ part, t.node? child = some part ∧ node.wanted slot = some part.tag
  keptOnce : ∀ {id : NodeId}, id.index < t.size → id ≠ root →
    ∃! place : NodeId × Slot, t.Keeps place.1 place.2 id
  reached : ∀ {id : NodeId}, id.index < t.size → t.Reaches root id

/-- If every node but the root is kept by one with a greater number, the way up from a
node ends at the root. -/
theorem reaches_of_kept {root : NodeId}
    (descends : ∀ {parent slot child}, t.Keeps parent slot child → child.index < parent.index)
    (kept : ∀ {id : NodeId}, id.index < t.size → id ≠ root →
      ∃ parent slot, parent.index < t.size ∧ t.Keeps parent slot id)
    {id : NodeId} (within : id.index < t.size) : t.Reaches root id := by
  -- the number of nodes behind `id` gets smaller on the way up
  induction gap : t.size - id.index using Nat.strongRecOn generalizing id with
  | ind gap ih =>
  by_cases top : id = root
  · exact top ▸ .root
  · obtain ⟨parent, slot, inside, keeps⟩ := kept within top
    have up := descends keeps
    exact .part (ih _ (by omega) inside rfl) keeps

section Stored

variable {tag : Tag} {d : Derivation Nat Symbol tag} (stored : t.entries = (d.entries 0).toArray)
include stored

theorem size_of_stored : t.size = d.size := by
  simp [size, stored]

theorem lies_of_stored : t.Lies 0 (d.entries 0) := by
  intro i within
  simp [stored]

theorem index_lt_of_node? {id : NodeId} {node : Node} (here : t.node? id = some node) :
    id.index < 0 + d.size := by
  obtain ⟨entry, found, -⟩ := node?_eq_some_iff.1 here
  obtain ⟨within, -⟩ := List.getElem?_eq_some_iff.1 found
  simpa [stored] using within

theorem slots_perm : (t.slots.map Prod.snd ++ [d.root 0]).Perm
    ((List.range' 0 d.size).map NodeId.mk) := by
  rw [map_snd_slots, stored]
  exact d.keptIn_perm 0

/-- What stands in two slots is the same only if the slots are. -/
theorem slots_inj {place place' : NodeId × Slot} {child : NodeId}
    (h : t.Keeps place.1 place.2 child) (h' : t.Keeps place'.1 place'.2 child) : place' = place := by
  have distinct : (t.slots.map Prod.snd ++ [d.root 0]).Nodup := by
    rw [(slots_perm stored).nodup_iff]
    refine List.Nodup.map (fun i j same => NodeId.mk.inj same) List.nodup_range'
  have same := List.inj_on_of_nodup_map distinct.of_append_left (mem_slots_iff.2 h')
    (mem_slots_iff.2 h) rfl
  exact congrArg Prod.fst same

theorem exists_keeps {id : NodeId} (within : id.index < t.size) (below : id ≠ d.root 0) :
    ∃ place : NodeId × Slot, t.Keeps place.1 place.2 id := by
  have among : id ∈ t.slots.map Prod.snd ++ [d.root 0] := by
    rw [(slots_perm stored).mem_iff, ← size_of_stored stored, List.mem_map]
    exact ⟨id.index, by simpa using within, rfl⟩
  rcases List.mem_append.1 among with among | among
  · obtain ⟨⟨place, _⟩, listed, rfl⟩ := List.mem_map.1 among
    exact ⟨place, mem_slots_iff.1 listed⟩
  · exact absurd (List.mem_singleton.1 among) below

theorem wellShaped_of_stored (rooted : t.root = some (d.root 0)) : t.WellShaped (d.root 0) := by
  have last : (d.root 0).index + 1 = t.size := by
    rw [size_of_stored stored, Derivation.root_eq, Derivation.size_eq, Nat.zero_add]
  have descends {parent slot child} (keeps : t.Keeps parent slot child) :
      child.index < parent.index := by
    obtain ⟨node, here, kept⟩ := keeps
    exact ((lies_of_stored stored).keeps (Nat.zero_le _) (index_lt_of_node? stored here) here kept).1
  refine ⟨rooted, last, descends, ?_, ?_, ?_⟩
  · intro parent node slot child here kept
    exact ((lies_of_stored stored).keeps (Nat.zero_le _) (index_lt_of_node? stored here) here kept).2
  · intro id within below
    obtain ⟨place, keeps⟩ := exists_keeps stored within below
    exact ⟨place, keeps, fun place' keeps' => slots_inj stored keeps keeps'⟩
  · refine reaches_of_kept descends fun within below => ?_
    obtain ⟨place, keeps⟩ := exists_keeps stored within below
    have ⟨node, here, _⟩ := keeps
    have inside := index_lt_of_node? stored here
    rw [Nat.zero_add, ← size_of_stored stored] at inside
    exact ⟨place.1, place.2, inside, keeps⟩

end Stored

end Tree

/-- The names of a table, in order, have the symbols in order. -/
theorem SymbolTable.map_index_names (t : SymbolTable) :
    t.names.map t.index = (List.range t.size).map Symbol.mk := by
  apply List.ext_getElem
  · simp [size]
  · intro i h h'
    rw [List.length_map] at h
    simp [index, t.distinct.idxOf_getElem i h]

namespace Parsed.Shows

variable {parsed : Parsed} {capacity : Nat} {d : Derivation Unit String .program}
  {p : Program Symbol}

theorem stored (h : parsed.Shows capacity d p) :
    parsed.tree.entries = (p.derivation.entries 0).toArray := by
  obtain ⟨_, _, tree⟩ := Tree.ofProgram_eq_ok_iff.1 h.tree_eq
  rw [tree]

theorem root_eq (h : parsed.Shows capacity d p) :
    parsed.tree.root = some (p.derivation.root 0) := by
  obtain ⟨_, _, tree⟩ := Tree.ofProgram_eq_ok_iff.1 h.tree_eq
  rw [tree]

theorem mem_entries (h : parsed.Shows capacity d p) {id : NodeId} {node : Node}
    (here : parsed.tree.node? id = some node) :
    ∃ line, ⟨node, line⟩ ∈ p.derivation.entries 0 := by
  obtain ⟨⟨_, line⟩, found, rfl⟩ := Tree.node?_eq_some_iff.1 here
  rw [h.stored] at found
  exact ⟨line, List.mem_of_getElem? found⟩

/-- Integer leaves are not negative: only such literals can be written. -/
theorem literal_nonneg (h : parsed.Shows capacity d p) (named : d.WellNamed)
    (written : ∀ t ∈ d.yield, t.Written) {id : NodeId} {value : Int64}
    (here : parsed.tree.node? id = some (.int value)) : 0 ≤ value.toInt := by
  obtain ⟨line, among⟩ := h.mem_entries here
  have among := Derivation.mem_yield_of_int parsed.symbols.spell among
  have shape := h.shape_rename named
  rw [Program.derivation_rename] at shape
  rw [← shape, Derivation.yield_map] at written
  exact written _ among

theorem symbol_lt (h : parsed.Shows capacity d p) (named : d.WellNamed) {id : NodeId}
    {symbol : Symbol} (here : parsed.tree.node? id = some (.ident symbol)) :
    symbol.index < parsed.symbols.size := by
  obtain ⟨line, among⟩ := h.mem_entries here
  have among := Derivation.symbols_subset_vars among (List.mem_singleton.2 rfl)
  obtain ⟨within, _⟩ := List.getElem?_eq_some_iff.1 (h.vars_named named symbol among)
  exact within

/-- The declarations come first, and their leaves tell the symbols in order. -/
theorem exists_program (h : parsed.Shows capacity d p) :
    ∃ decls stmts, parsed.tree.node? (p.derivation.root 0) = some (.program decls stmts) ∧
      parsed.tree.symbolsBelow decls = (List.range parsed.symbols.size).map Symbol.mk := by
  have lies := Tree.lies_of_stored h.stored
  have declared : p.decls.derivation.vars = parsed.symbols.names.map parsed.symbols.index := by
    rw [h.names_eq]
    have shape := h.shape_eq
    cases d with
    | program note decls stmts =>
      have same := (Derivation.program.inj shape).2.1
      simpa using congrArg Derivation.vars same
  rw [Program.derivation, Derivation.entries] at lies
  have first : parsed.tree.Lies 0 (p.decls.derivation.entries 0) := lies.left.left
  refine ⟨p.decls.derivation.root 0, p.stmts.derivation.root (0 + p.decls.derivation.size), ?_, ?_⟩
  · simpa [Program.derivation, Derivation.root, ← Nat.add_assoc] using lies.at_root.node?_eq
  · rw [first.symbolsBelow_eq, declared, SymbolTable.map_index_names]

end Parsed.Shows

/-- The nodes of a parse form a tree: the root is the program and comes last, every other
node stands in exactly one slot, of a node with a greater number that wants its tag there,
and is reached from the root. No integer leaf is negative, the identifier leaves hold
symbols of the table, and those below the declarations hold all of them in order. -/
theorem parse_wellShaped {source : String} {capacity : Nat} {parsed : Parsed}
    (accepted : parse source capacity = .ok parsed) :
    ∃ root decls stmts, parsed.tree.WellShaped root ∧
      parsed.tree.node? root = some (.program decls stmts) ∧
      (∀ id value, parsed.tree.node? id = some (.int value) → 0 ≤ value.toInt) ∧
      (∀ id symbol, parsed.tree.node? id = some (.ident symbol) →
        symbol.index < parsed.symbols.size) ∧
      parsed.tree.symbolsBelow decls = (List.range parsed.symbols.size).map Symbol.mk := by
  obtain ⟨d, p, derives, fitting, shows⟩ := parse_sound accepted
  obtain ⟨decls, stmts, top, declared⟩ := shows.exists_program
  refine ⟨p.derivation.root 0, decls, stmts, Tree.wellShaped_of_stored shows.stored shows.root_eq,
    top, ?_, ?_, declared⟩
  · intro id value here
    exact shows.literal_nonneg fitting.named derives.written here
  · intro id symbol here
    exact shows.symbol_lt fitting.named here

theorem parse_wellShaped_branch :
    ∃ parsed, parse "program int X,Y; begin read Y; if (X<=10) then X=2*(Y+1); end; end" 40
        = .ok parsed ∧
      ∃ root decls stmts, parsed.tree.WellShaped root ∧
        parsed.tree.node? root = some (.program decls stmts) ∧
        (∀ id value, parsed.tree.node? id = some (.int value) → 0 ≤ value.toInt) ∧
        (∀ id symbol, parsed.tree.node? id = some (.ident symbol) →
          symbol.index < parsed.symbols.size) ∧
        parsed.tree.symbolsBelow decls = (List.range parsed.symbols.size).map Symbol.mk := by
  obtain ⟨parsed, accepted⟩ := exists_parsed
    "program int X,Y; begin read Y; if (X<=10) then X=2*(Y+1); end; end" 40 (by decide +kernel)
  exact ⟨parsed, accepted, parse_wellShaped accepted⟩

end CoreLang
