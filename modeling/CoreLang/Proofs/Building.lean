import CoreLang.Parse
import CoreLang.Proofs.Reader
import CoreLang.Proofs.RuleInduction
import CoreLang.Program.Storage

/-!
# Building a tree is reading a program and storing it

The rules of the grammar are loops that put links aside and add nodes to a tree. Those of the
reader are recursions that give programs and only count the nodes. A rule builds just the nodes
that are stored for what the reader reads, and it fails where the reader fails
(`BuildM.Mirrored`). So a parse is a reading whose program is then in the tree (`parse_cases`).

First the loops are unrolled: where a link is put aside and added behind all that follows it,
the rest of its chain comes in between (`Chain.upTo_succ`, `condUpTo_succ`). Then both sides
are followed step by step (`Mirrors`). Their states agree but for the tree, of which the reader
has the sizes only (`ParseState.view`). They may part in one case, a tree with room for more
nodes than can be numbered: there building runs out of numbers where reading goes on.
-/

namespace CoreLang

/-- The numbers of a budget that is kept in a tree. -/
def TreeBudget.account (b : TreeBudget) : Budget :=
  { capacity := b.tree.capacity, built := b.tree.size, reserved := b.reserved }

/-- What is left of a state if only the account of the nodes is kept. -/
def ParseState.view (s : ParseState TreeBudget) : ParseState :=
  { lookahead := s.lookahead
    upcoming := s.upcoming
    ending := s.ending
    symbols := s.symbols
    budget := s.budget.account
    depth := s.depth
    tokenCount := s.tokenCount }

namespace BuildM

/-! ### Loops as recursions -/

namespace Chain

variable {κ : Type} (c : Chain κ)

/-- The links that were put aside wait until the rest of the chain is in the tree. -/
theorem linksUpTo_eq (n : Nat) (links : List (Link κ)) (line : Nat) (item : NodeId) :
    c.linksUpTo n links line item = c.linksUpTo n [] line item >>= c.allocLinks links := by
  induction n generalizing links line item with
  | zero =>
    simp only [linksUpTo, allocChain, bind_assoc]
    rfl
  | succ n ih =>
    rw [linksUpTo, linksUpTo, bind_assoc]
    refine bind_congr fun found => ?_
    cases found with
    | none =>
      simp only [allocChain, bind_assoc]
      rfl
    | some kind =>
      simp only [bind_assoc]
      refine bind_congr fun next => bind_congr fun following => ?_
      rw [ih (_ :: links), ih [_], bind_assoc]
      refine bind_congr fun rest => ?_
      simp only [allocLinks, bind_assoc]
      rfl

/-- A chain that may not go on is one link. -/
theorem upTo_zero : c.upTo 0 = (do
    let line ← claim
    let item ← c.item
    alloc (c.last item) line) := by
  refine bind_congr fun line => bind_congr fun item => ?_
  exact bind_pure _

/-- A chain is one link, or a link and another chain. The node of its first link is the last
one that is added. -/
theorem upTo_succ (n : Nat) : c.upTo (n + 1) = (do
    let line ← claim
    let item ← c.item
    match ← c.more with
    | some kind =>
      let rest ← c.upTo n
      alloc (c.join kind item rest) line
    | none => alloc (c.last item) line) := by
  refine bind_congr fun line => bind_congr fun item => ?_
  rw [linksUpTo]
  refine bind_congr fun found => ?_
  cases found with
  | none => exact bind_pure _
  | some kind =>
    simp only [upTo, bind_assoc]
    refine bind_congr fun next => bind_congr fun following => ?_
    rw [linksUpTo_eq]
    exact bind_congr fun rest => bind_pure _

end Chain

section Negations

variable (levels : Nat) (inside : BuildM NodeId)

/-- The negations that were put aside wait until the condition behind them is in the tree. -/
theorem condUpTo_eq (n : Nat) (negations : List Nat) :
    condUpTo levels inside n negations =
      condUpTo levels inside n [] >>= allocNegations negations := by
  induction n generalizing negations with
  | zero =>
    simp only [condUpTo, bind_assoc]
    rfl
  | succ n ih =>
    rw [condUpTo, condUpTo, bind_assoc]
    refine bind_congr fun token => ?_
    split
    · simp only [bind_assoc]
      refine bind_congr fun line => bind_congr fun _ => ?_
      rw [ih (line :: negations), ih [line], bind_assoc]
      refine bind_congr fun cond => ?_
      simp only [allocNegations, bind_assoc]
      rfl
    · simp only [bind_assoc]
      rfl

/-- What follows the claim of a condition that starts with no `!`. -/
def plainCondAt (line : Nat) : BuildM NodeId := do
  let cond ← match ← ParseM.peek with
    | .mark .openBracket =>
      ParseM.advance
      let left ← inside
      let join ← match ← ParseM.peek with
        | .mark .andAnd => pure Node.condAnd
        | .mark .orOr => pure Node.condOr
        | _ => ParseM.unexpected .logicalOperator
      ParseM.advance
      let right ← inside
      ParseM.expect (.mark .closeBracket) .closeBracket
      pure (join left right)
    | _ => pure (Node.condCompare (← comparison levels))
  alloc cond line

/-- A condition that may have no negation. -/
theorem condUpTo_zero : condUpTo levels inside 0 [] = (do
    let line ← claim
    plainCondAt levels inside line) := by
  exact bind_pure _

/-- To claim a node does not change what is ahead. -/
theorem peek_claim {α : Type} (f : Token → Nat → BuildM α) :
    (ParseM.peek >>= fun token => claim >>= f token) =
      claim >>= fun line => ParseM.peek >>= fun token => f token line := by
  funext s
  by_cases free : s.budget.tree.size + s.budget.reserved < s.budget.tree.capacity
  · simp only [Bind.bind, EStateM.bind, ParseM.peek, claim_of_free free]
  · simp only [Bind.bind, EStateM.bind, ParseM.peek, claim_of_full free]

/-- Whether a negation follows is asked before its node is claimed, but a node is claimed
in any case. -/
theorem condUpTo_succ (n : Nat) : condUpTo levels inside (n + 1) [] = (do
    let line ← claim
    match ← ParseM.peek with
    | .mark .bang =>
      ParseM.advance
      let cond ← condUpTo levels inside n []
      alloc (.condNot cond) line
    | _ => plainCondAt levels inside line) := by
  refine .trans ?_ (peek_claim _)
  rw [condUpTo]
  refine bind_congr fun token => ?_
  cases token with
  | mark sign =>
    cases sign with
    | bang =>
      refine bind_congr fun line => bind_congr fun _ => ?_
      rw [condUpTo_eq]
      exact bind_congr fun cond => bind_pure _
    | _ => exact bind_pure (plainCond levels inside)
  | _ => exact bind_pure (plainCond levels inside)

end Negations

/-! ### Two parses side by side -/

variable {α β γ δ : Type}

/-- `reads` does with the numbers of a budget what `builds` does with the tree: neither looks
at them. -/
def Unbudgeted (builds : BuildM α) (reads : ParseM α) : Prop :=
  ∀ s, match builds s with
    | .ok a t => reads s.view = .ok a t.view ∧ t.budget = s.budget
    | .error e t => reads s.view = .error e t.view

namespace Unbudgeted

variable {builds : BuildM α} {reads : ParseM α} {g : α → BuildM β} {f : α → ParseM β}

theorem pure (a : α) : Unbudgeted (Pure.pure a) (Pure.pure a) :=
  fun _ => ⟨rfl, rfl⟩

theorem bind (first : Unbudgeted builds reads) (next : ∀ a, Unbudgeted (g a) (f a)) :
    Unbudgeted (builds >>= g) (reads >>= f) := by
  intro s
  have same := first s
  simp only [Bind.bind, EStateM.bind]
  cases done : builds s with
  | error e t =>
    rw [done] at same
    simp only [same]
  | ok a t =>
    rw [done] at same
    obtain ⟨read, kept⟩ := same
    have rest := next a t
    simp only [read]
    rwa [kept] at rest

theorem peek : Unbudgeted ParseM.peek ParseM.peek :=
  fun _ => ⟨rfl, rfl⟩

theorem unexpected (expected : Expected) :
    Unbudgeted (ParseM.unexpected expected : BuildM α) (ParseM.unexpected expected) :=
  fun _ => rfl

theorem advance : Unbudgeted ParseM.advance ParseM.advance := by
  rintro ⟨lookahead, upcoming, ending, symbols, budget, depth, tokenCount⟩
  by_cases ended : lookahead.token = .eof
  · simp only [ParseM.advance, ParseState.view, ended, if_true, and_self]
  · simp only [ParseM.advance, ParseState.view, ended, if_false]
    cases upcoming with
    | cons next rest => exact ⟨rfl, rfl⟩
    | nil => cases ending <;> first | exact ⟨rfl, rfl⟩ | rfl

theorem expect (token : Token) (expected : Expected) :
    Unbudgeted (ParseM.expect token expected) (ParseM.expect token expected) := by
  refine peek.bind fun found => ?_
  split
  · exact advance
  · exact unexpected expected

theorem blockEnd : Unbudgeted ParseM.blockEnd ParseM.blockEnd :=
  (expect _ _).bind fun _ => expect _ _

theorem bindName (site : ParseM.Site) (name : String) :
    Unbudgeted (ParseM.bindName site name) (ParseM.bindName site name) := by
  rintro ⟨lookahead, upcoming, ending, symbols, budget, depth, tokenCount⟩
  cases site with
  | declares =>
    simp only [ParseM.bindName, ParseState.view]
    cases symbols.declare? name with
    | some found => exact ⟨rfl, rfl⟩
    | none => rfl
  | uses =>
    simp only [ParseM.bindName, ParseState.view]
    cases symbols.resolve? name with
    | some symbol => exact ⟨rfl, rfl⟩
    | none => rfl

theorem nothingMore : Unbudgeted ParseM.nothingMore ParseM.nothingMore := by
  rintro ⟨lookahead, upcoming, ending, symbols, budget, depth, tokenCount⟩
  by_cases ended : lookahead.token = .eof
  · simp only [ParseM.nothingMore, ParseState.view, ended, if_true, and_self]
  · simp only [ParseM.nothingMore, ParseState.view, ended, if_false]

theorem ahead? (begins : Token → Bool) :
    Unbudgeted (BuildM.ahead? begins) (BuildM.ahead? begins) := by
  refine peek.bind fun token => ?_
  split <;> exact pure _

theorem passed? (token : Token) : Unbudgeted (BuildM.passed? token) (BuildM.passed? token) := by
  refine peek.bind fun found => ?_
  split
  · exact advance.bind fun _ => pure _
  · exact pure _

theorem sign? : Unbudgeted BuildM.sign? BuildM.sign? := by
  refine peek.bind fun token => ?_
  split
  · exact advance.bind fun _ => pure _
  · exact advance.bind fun _ => pure _
  · exact pure _

end Unbudgeted

/-- A state of a parse that has built these nodes, where so many claims are open. -/
structure Sound (capacity claims : Nat) (entries : Array Entry) (s : ParseState TreeBudget) :
    Prop where
  tree : s.budget.tree = { capacity := capacity, entries := entries, root := none }
  room : entries.size + s.budget.reserved ≤ capacity
  claimed : claims ≤ s.budget.reserved
  numbered : entries.size ≤ NodeId.limit

/-- A rule that builds has ended as one that reads did. Only where a tree may have more nodes
than can be numbered, it may have run out of numbers. -/
inductive Matches (capacity : Nat) (post : α → β → ParseState TreeBudget → Prop) :
    EStateM.Result ParseError ParseState α →
      EStateM.Result ParseError (ParseState TreeBudget) β → Prop where
  | ok {a : α} {b : β} {t : ParseState TreeBudget} (made : post a b t) :
    Matches capacity post (.ok a t.view) (.ok b t)
  | error {e : ParseError} {s : ParseState} {t : ParseState TreeBudget} :
    Matches capacity post (.error e s) (.error e t)
  | overflow {read : EStateM.Result ParseError ParseState α} {t : ParseState TreeBudget}
      (large : NodeId.limit < capacity) :
    Matches capacity post read (.error (.tree (.capacityExceeded capacity)) t)

/-- `builds` does what `reads` does, from where these nodes are in the tree, so many claims
are open and the token ahead is on this line: `post` relates what they give and the nodes
that are in the tree then. -/
def Mirrors (capacity claims claims' : Nat) (entries : Array Entry) (line : Nat)
    (builds : BuildM β) (reads : ParseM α) (post : α → β → Array Entry → Prop) : Prop :=
  ∀ s, Sound capacity claims entries s → s.lookahead.line = line →
    Matches capacity
      (fun a b t => ∃ entries', Sound capacity claims' entries' t ∧ post a b entries')
      (reads s.view) (builds s)

namespace Mirrors

variable {capacity claims claims₁ claims₂ : Nat} {entries : Array Entry} {line : Nat}
  {builds : BuildM β} {reads : ParseM α} {post : α → β → Array Entry → Prop}
  {post' : γ → δ → Array Entry → Prop}

theorem bind {g : β → BuildM δ} {f : α → ParseM γ}
    (first : Mirrors capacity claims claims₁ entries line builds reads post)
    (next : ∀ a b entries' line', post a b entries' →
      Mirrors capacity claims₁ claims₂ entries' line' (g b) (f a) post') :
    Mirrors capacity claims claims₂ entries line (builds >>= g) (reads >>= f) post' := by
  intro s sound here
  have matched := first s sound here
  simp only [Bind.bind, EStateM.bind]
  generalize reads s.view = read, builds s = built at matched
  cases matched with
  | ok made =>
    obtain ⟨entries', sound', posted⟩ := made
    exact next _ _ _ _ posted _ sound' rfl
  | error => exact .error
  | overflow large => exact .overflow large

/-! ### Single steps -/

/-- A node is claimed where it is reserved, and the rest is given the line ahead. -/
theorem claim {g : Nat → BuildM β}
    (rest : Mirrors capacity (claims + 1) claims₁ entries line (g line) reads post) :
    Mirrors capacity claims claims₁ entries line (BuildM.claim >>= g)
      (ParseM.reserve >>= fun _ => reads) post := by
  rintro s sound rfl
  -- finished and claimed nodes are counted alike on both sides
  by_cases free : s.budget.tree.size + s.budget.reserved < s.budget.tree.capacity
  · let s' : ParseState TreeBudget := { s with budget.reserved := s.budget.reserved + 1 }
    have counted : s.view.budget.reserve? = some s'.view.budget := if_pos free
    have read : ParseM.reserve s.view = .ok () s'.view := by
      rw [ParseM.reserve, counted]
      rfl
    have room : entries.size + (s.budget.reserved + 1) ≤ capacity := by
      rw [sound.tree] at free
      exact free
    simp only [Bind.bind, EStateM.bind, claim_of_free free, read]
    exact rest s' ⟨sound.tree, room, Nat.succ_le_succ sound.claimed, sound.numbered⟩ rfl
  · have counted : s.view.budget.reserve? = none := if_neg free
    have read : ParseM.reserve s.view =
        .error (.tree (.capacityExceeded s.budget.tree.capacity)) s.view := by
      rw [ParseM.reserve, counted]
      rfl
    simp only [Bind.bind, EStateM.bind, claim_of_full free, read]
    exact .error

/-- A node is added to the tree where it is settled. -/
theorem alloc {a : α} {node : Node} {start : Nat} {post : α → NodeId → Array Entry → Prop}
    (made : post a ⟨entries.size⟩ (entries.push ⟨node, start⟩)) :
    Mirrors capacity (claims + 1) claims entries line (BuildM.alloc node start)
      (ParseM.settle >>= fun _ => pure a) post := by
  intro s sound _
  have tree := sound.tree
  have room := sound.room
  have claimed := sound.claimed
  have size : s.budget.tree.size = entries.size := by rw [tree, Tree.size]
  have same : s.budget.tree.capacity = capacity := by rw [tree]
  have free : s.budget.tree.size < s.budget.tree.capacity := by omega
  by_cases numbered : s.budget.tree.size < NodeId.limit
  · have read : (ParseM.settle >>= fun _ => pure a) s.view =
        .ok a (withNode s node start).view := by
      simp only [ParseState.view, TreeBudget.account, withNode, Tree.size, Array.size_push]
      rfl
    rw [alloc_of_free free numbered, read, size]
    refine .ok ⟨entries.push ⟨node, start⟩, ⟨?_, ?_, ?_, ?_⟩, made⟩
    · simp only [withNode, tree]
    · simp only [withNode, Array.size_push]
      omega
    · exact Nat.le_sub_of_add_le claimed
    · rw [Array.size_push]
      omega
  · -- what was claimed has room, so it is the numbers that have run out
    rw [alloc_of_full fun free => numbered free.2, same]
    exact .overflow (by omega)

theorem peek {g : Token → BuildM β} {f : Token → ParseM α}
    (rest : ∀ token, Mirrors capacity claims claims₁ entries line (g token) (f token) post) :
    Mirrors capacity claims claims₁ entries line (ParseM.peek >>= g) (ParseM.peek >>= f) post :=
  fun s => rest s.lookahead.token s

/-- The reader asks for the line that the claim has given. -/
theorem peekLine {f : Nat → ParseM α}
    (rest : Mirrors capacity claims claims₁ entries line builds (f line) post) :
    Mirrors capacity claims claims₁ entries line builds (ParseM.peekLine >>= f) post := by
  rintro s sound rfl
  exact rest s sound rfl

/-- Steps that leave the budget alone. -/
theorem plain {builds : BuildM α} (same : Unbudgeted builds reads) :
    Mirrors capacity claims claims entries line builds reads
      fun a b entries' => b = a ∧ entries' = entries := by
  intro s sound _
  have read := same s
  cases done : builds s with
  | error e t =>
    rw [done] at read
    rw [read]
    exact .error
  | ok a t =>
    rw [done] at read
    obtain ⟨read, kept⟩ := read
    rw [read]
    refine .ok ⟨entries, ⟨?_, ?_, ?_, sound.numbered⟩, rfl, rfl⟩ <;> rw [kept]
    · exact sound.tree
    · exact sound.room
    · exact sound.claimed

theorem tooDeep : Mirrors capacity claims claims₁ entries line (ParseM.tooDeep : BuildM β)
    (ParseM.tooDeep : ParseM α) post :=
  fun _ _ _ => .error

/-- Both sides go in and come out again alike. -/
theorem nested (inside : Mirrors capacity claims claims entries line builds reads post) :
    Mirrors capacity claims claims entries line (BuildM.nested builds) (ParseM.nested reads)
      post := by
  intro s sound here
  by_cases shallow : s.depth < ParseM.maxNesting
  · let s' : ParseState TreeBudget := { s with depth := s.depth + 1 }
    have entering : ParseM.enter s.view = .ok () s'.view := if_pos shallow
    have matched := inside s' ⟨sound.tree, sound.room, sound.claimed, sound.numbered⟩ here
    simp only [ParseM.nested, Bind.bind, EStateM.bind, entering]
    cases built : builds s' with
    | error e t =>
      rw [nested_of_error shallow built]
      rw [built] at matched
      generalize reads s'.view = read at matched ⊢
      cases matched with
      | error => exact .error
      | overflow large => exact .overflow large
    | ok b t =>
      rw [nested_of_ok shallow built]
      rw [built] at matched
      generalize reads s'.view = read at matched ⊢
      cases matched with
      | @ok a b t made =>
        obtain ⟨entries', sound', posted⟩ := made
        let t' : ParseState TreeBudget := { t with depth := t.depth - 1 }
        change Matches _ _ (.ok a t'.view) (.ok b t')
        exact .ok ⟨entries', ⟨sound'.tree, sound'.room, sound'.claimed, sound'.numbered⟩, posted⟩
  · have stopping : ParseM.enter s.view = ParseM.tooDeep s.view := if_neg shallow
    rw [nested_of_deep shallow]
    simp only [ParseM.nested, Bind.bind, EStateM.bind, stopping]
    exact .error

theorem repeating {builds : Nat → BuildM β} {reads : Nat → ParseM α}
    (each : ∀ n, Mirrors capacity claims claims₁ entries line (builds n) (reads n) post) :
    Mirrors capacity claims claims₁ entries line (ParseM.repeating builds)
      (ParseM.repeating reads) post :=
  fun s => each s.tokenCount s

end Mirrors

/-- The rest of a rule that has claimed a node of its own, up to this node. -/
def Settles (capacity claims : Nat) (entries : Array Entry) (line : Nat) (builds : BuildM NodeId)
    (rule : ParseM α) (post : α → NodeId → Array Entry → Prop) : Prop :=
  Mirrors capacity (claims + 1) claims entries line builds
    (rule >>= fun a => ParseM.settle >>= fun _ => pure a) post

/-- A rule of the reader makes one node, around all that it reads. -/
theorem Mirrors.node {capacity claims : Nat} {entries : Array Entry} {line : Nat}
    {builds : Nat → BuildM NodeId} {rule : ParseM α} {post : α → NodeId → Array Entry → Prop}
    (rest : Settles capacity claims entries line (builds line) rule post) :
    Mirrors capacity claims claims entries line (BuildM.claim >>= builds) (ParseM.node rule) post :=
  Mirrors.claim rest

namespace Settles

variable {capacity claims : Nat} {entries : Array Entry} {line : Nat}
  {builds : BuildM β} {reads : ParseM γ} {post : α → NodeId → Array Entry → Prop}
  {inner : γ → β → Array Entry → Prop}

theorem bind {g : β → BuildM NodeId} {f : γ → ParseM α}
    (first : Mirrors capacity (claims + 1) (claims + 1) entries line builds reads inner)
    (next : ∀ c b entries' line', inner c b entries' →
      Settles capacity claims entries' line' (g b) (f c) post) :
    Settles capacity claims entries line (builds >>= g) (reads >>= f) post := by
  unfold Settles
  rw [bind_assoc]
  exact first.bind next

/-- A step that leaves the budget alone, and the rest. -/
theorem plain {builds : BuildM γ} (same : Unbudgeted builds reads) {g : γ → BuildM NodeId}
    {f : γ → ParseM α} (rest : ∀ c line', Settles capacity claims entries line' (g c) (f c) post) :
    Settles capacity claims entries line (builds >>= g) (reads >>= f) post := by
  refine bind (Mirrors.plain same) fun c b entries' line' posted => ?_
  obtain ⟨rfl, rfl⟩ := posted
  exact rest b line'

theorem peek {g : Token → BuildM NodeId} {f : Token → ParseM α}
    (rest : ∀ token, Settles capacity claims entries line (g token) (f token) post) :
    Settles capacity claims entries line (ParseM.peek >>= g) (ParseM.peek >>= f) post :=
  Mirrors.peek rest

theorem peekLine {builds : BuildM NodeId} {f : Nat → ParseM α}
    (rest : Settles capacity claims entries line builds (f line) post) :
    Settles capacity claims entries line builds (ParseM.peekLine >>= f) post := by
  unfold Settles
  rw [bind_assoc]
  exact Mirrors.peekLine rest

theorem alloc {a : α} {node : Node} {start : Nat}
    (made : post a ⟨entries.size⟩ (entries.push ⟨node, start⟩)) :
    Settles capacity claims entries line (BuildM.alloc node start) (pure a) post :=
  Mirrors.alloc made

theorem unexpected (expected : Expected) :
    Settles capacity claims entries line (ParseM.unexpected expected)
      (ParseM.unexpected expected) post :=
  fun _ _ _ => .error

end Settles

/-! ### Rules -/

/-- A rule builds the nodes of what it reads: they are stored behind the nodes that are there,
and the line of the token ahead is the first line of what is read. -/
def Mirrored (capacity : Nat) (builds : BuildM NodeId) (reads : ParseM α) (line : α → Nat)
    (store : Array Entry → α → Array Entry) : Prop :=
  ∀ claims entries start, Mirrors capacity claims claims entries start builds reads
    fun a id entries' => line a = start ∧ id = lastStored entries' ∧ entries' = store entries a

variable {capacity : Nat}

/-- A chain is built as it is read: the nodes of the items from left to right, then those of
the links from the last one back. -/
theorem Chain.mirrored {κ : Type} (c : Chain κ) (last : γ → α) (join : κ → γ → α → α)
    {item : ParseM γ} {more : ParseM (Option κ)} {lineOf : γ → Nat}
    {storeItem : Array Entry → γ → Array Entry} {line : α → Nat}
    {store : Array Entry → α → Array Entry} {reads : Nat → ParseM α}
    (items : Mirrored capacity c.item item lineOf storeItem) (mores : Unbudgeted c.more more)
    (reads_zero : reads 0 = ParseM.node (item >>= fun i => pure (last i)))
    (reads_succ : ∀ n, reads (n + 1) = ParseM.node (item >>= fun i => more >>= fun
      | some kind => reads n >>= fun rest => pure (join kind i rest)
      | none => pure (last i)))
    (lasts : ∀ i, line (last i) = lineOf i ∧ ∀ entries, store entries (last i) =
      let a := storeItem entries i
      a.push ⟨c.last (lastStored a), lineOf i⟩)
    (joins : ∀ kind i rest, line (join kind i rest) = lineOf i ∧
      ∀ entries, store entries (join kind i rest) =
        let a := storeItem entries i
        let b := store a rest
        b.push ⟨c.join kind (lastStored a) (lastStored b), lineOf i⟩) (n : Nat) :
    Mirrored capacity (c.upTo n) (reads n) line store := by
  -- the last link is allocated when the chain ends
  have ends (claims : Nat) (entries : Array Entry) (start line' : Nat) (i : γ)
      (first : lineOf i = start) : Settles capacity claims (storeItem entries i) line'
        (alloc (c.last (lastStored (storeItem entries i))) start) (pure (last i))
        fun a id entries' =>
          line a = start ∧ id = lastStored entries' ∧ entries' = store entries a := by
    refine .alloc ⟨(lasts i).1.trans first, ?_, ?_⟩
    · simp [lastStored]
    · rw [(lasts i).2, first]
  induction n with
  | zero =>
    intro claims entries start
    rw [c.upTo_zero, reads_zero]
    refine .node (Settles.bind (items _ _ _) fun i id entries' line' posted => ?_)
    obtain ⟨first, rfl, rfl⟩ := posted
    exact ends claims entries start line' i first
  | succ n ih =>
    intro claims entries start
    rw [c.upTo_succ, reads_succ]
    refine .node (Settles.bind (items _ _ _) fun i id entries' line' posted => ?_)
    obtain ⟨first, rfl, rfl⟩ := posted
    refine .plain mores fun found line'' => ?_
    cases found with
    | none => exact ends claims entries start line'' i first
    | some kind =>
      refine Settles.bind (ih _ _ _) fun rest id entries' line' posted => ?_
      obtain ⟨-, rfl, rfl⟩ := posted
      refine .alloc ⟨(joins kind i rest).1.trans first, ?_, ?_⟩
      · simp [lastStored]
      · rw [(joins kind i rest).2, first]

/-- A name is one node. -/
theorem identifier_mirrored (site : ParseM.Site) :
    Mirrored capacity (identifier site) (ParseM.identifier site) Ident.line Ident.store := by
  intro claims entries start
  refine .node (.peek fun token => ?_)
  cases token with
  | identifier name =>
    refine .peekLine (.plain (.bindName _ _) fun symbol _ => .plain .advance fun _ _ => ?_)
    exact .alloc ⟨rfl, by simp [lastStored], rfl⟩
  | _ => exact .unexpected _

/-! What is looked for between two items is the same on both sides. -/

/-- Looking for a mark between two items, and passing it. -/
theorem passed?_bind (token : Token) (f : Option Unit → ParseM α) :
    passed? token >>= f = ParseM.peek >>= fun found =>
      if found = token then ParseM.advance >>= fun _ => f (some ()) else f none := by
  rw [passed?, bind_assoc]
  refine bind_congr fun found => ?_
  by_cases same : found = token
  · rw [if_pos same, if_pos same, bind_assoc]
    rfl
  · rw [if_neg same, if_neg same]
    rfl

/-- Looking for a token that begins another item. -/
theorem ahead?_bind (begins : Token → Bool) (f : Option Unit → ParseM α) :
    ahead? begins >>= f = ParseM.peek >>= fun token =>
      if begins token then f (some ()) else f none := by
  rw [ahead?, bind_assoc]
  refine bind_congr fun token => ?_
  by_cases more : begins token
  · rw [if_pos more, if_pos more]
    rfl
  · rw [if_neg more, if_neg more]
    rfl

/-- Looking for a sign between two terms. -/
theorem sign?_bind (f : Option Sign → ParseM α) :
    sign? >>= f = ParseM.peek >>= fun
      | .mark .plus => ParseM.advance >>= fun _ => f (some .plus)
      | .mark .minus => ParseM.advance >>= fun _ => f (some .minus)
      | _ => f none := by
  rw [sign?, bind_assoc]
  refine bind_congr fun token => ?_
  cases token with
  | mark sign =>
    cases sign with
    | plus | minus =>
      dsimp only
      rw [bind_assoc]
      rfl
    | _ => rfl
  | _ => rfl

/-- A list of names is a chain. That the reader goes on with the same tokens is seen from all
the tokens there are. -/
theorem idList_mirrored (site : ParseM.Site) :
    Mirrored capacity (idList site) (ParseM.idList site) IdList.line IdList.store := by
  intro claims entries start
  refine .repeating fun n => ?_
  refine Chain.mirrored _ .last (fun _ => .cons) (identifier_mirrored site) (.passed? _) rfl ?_
    (fun _ => ⟨rfl, fun _ => rfl⟩) (fun _ _ _ => ⟨rfl, fun _ => rfl⟩) n claims entries start
  intro n
  refine congrArg ParseM.node (bind_congr fun id => ?_)
  rw [passed?_bind]
  refine bind_congr fun token => ?_
  cases token with
  | mark sign => cases sign <;> rfl
  | _ => rfl

/-- A declaration adds its node behind those of its names. -/
theorem decl_mirrored : Mirrored capacity decl ParseM.decl Decl.line Decl.store := by
  intro claims entries start
  refine .node (.peekLine (.plain (.expect _ _) fun _ _ => ?_))
  refine .bind (idList_mirrored _ _ _ _) fun ids id entries' _ posted => ?_
  obtain ⟨-, rfl, rfl⟩ := posted
  exact .plain (.expect _ _) fun _ _ => .alloc ⟨rfl, by simp [lastStored], rfl⟩

/-- Declarations are a chain without a mark between the items. -/
theorem declSeq_mirrored :
    Mirrored capacity declSeq ParseM.declSeq DeclSeq.line DeclSeq.store := by
  intro claims entries start
  refine .repeating fun n => ?_
  refine Chain.mirrored _ .last (fun _ => .cons) decl_mirrored (.ahead? _) rfl ?_
    (fun _ => ⟨rfl, fun _ => rfl⟩) (fun _ _ _ => ⟨rfl, fun _ => rfl⟩) n claims entries start
  intro n
  refine congrArg ParseM.node (bind_congr fun d => ?_)
  rw [ahead?_bind]
  refine bind_congr fun token => ?_
  cases token with
  | keyword word => cases word <;> rfl
  | _ => rfl

/-! ### Expressions -/

/-- The leaf of a literal is a node of its own. -/
theorem literal_mirrors (value : Int64) (claims : Nat) (entries : Array Entry) (start : Nat) :
    Mirrors capacity claims claims entries start
      (claim >>= fun leaf => ParseM.advance >>= fun _ => alloc (.int value) leaf)
      (ParseM.node ParseM.advance)
      fun _ id entries' => id = lastStored entries' ∧
        entries' = entries.push ⟨.int value, start⟩ := by
  refine .node ((Mirrors.plain .advance).bind fun _ _ entries' _ posted => ?_)
  obtain ⟨-, rfl⟩ := posted
  exact .alloc ⟨by simp [lastStored], rfl⟩

section

variable {inside : BuildM NodeId} {inner : ParseM (Expr Symbol)}
  (inners : Mirrored capacity inside inner Expr.line Expr.store)

include inners

/-- An operand. The node of a literal or a name is in the tree before that of the operand. -/
theorem operandWith_mirrored :
    Mirrored capacity (operandWith inside) (ParseM.operandWith inner) Operand.line
      Operand.store := by
  intro claims entries start
  refine .node (.peekLine (.peek fun token => ?_))
  cases token with
  | integer digits =>
    have assoc : ∀ k : NodeId → BuildM NodeId,
        (claim >>= fun leaf => ParseM.advance >>= fun _ =>
          alloc (.int (Token.literal digits)) leaf >>= k) =
        (claim >>= fun leaf => ParseM.advance >>= fun _ =>
          alloc (.int (Token.literal digits)) leaf) >>= k := by
      intro k
      simp only [bind_assoc]
    simp only [pure_bind]
    rw [assoc]
    refine .bind (literal_mirrors _ _ _ _) fun _ id entries' _ posted => ?_
    obtain ⟨rfl, rfl⟩ := posted
    exact .alloc ⟨rfl, by simp [lastStored], rfl⟩
  | identifier name =>
    simp only [pure_bind]
    refine .bind (identifier_mirrored _ _ _ _) fun x id entries' _ posted => ?_
    obtain ⟨first, rfl, rfl⟩ := posted
    exact .alloc ⟨first, by simp [lastStored], by rw [Operand.store, first]⟩
  | mark sign =>
    cases sign with
    | openParen =>
      simp only [pure_bind]
      refine .plain .advance fun _ _ => .bind (inners _ _ _) fun e id entries' _ posted => ?_
      obtain ⟨-, rfl, rfl⟩ := posted
      exact .plain (.expect _ _) fun _ _ => .alloc ⟨rfl, by simp [lastStored], rfl⟩
    | _ => exact .unexpected _
  | _ => exact .unexpected _

/-- A product is a chain of operands. -/
theorem termWith_mirrored :
    Mirrored capacity (termWith inside) (ParseM.termWith inner) Term.line Term.store := by
  intro claims entries start
  refine .repeating fun n => ?_
  refine Chain.mirrored _ .operand (fun _ => .mul) (operandWith_mirrored inners) (.passed? _) rfl ?_
    (fun _ => ⟨rfl, fun _ => rfl⟩) (fun _ _ _ => ⟨rfl, fun _ => rfl⟩) n claims entries start
  intro n
  refine congrArg ParseM.node (bind_congr fun o => ?_)
  rw [passed?_bind]
  refine bind_congr fun token => ?_
  cases token with
  | mark sign => cases sign <;> rfl
  | _ => rfl

omit inners in
/-- A term and the rest of a sum. -/
def Sign.join : Sign → Term Symbol → Expr Symbol → Expr Symbol
  | .plus => .add
  | .minus => .sub

/-- A sum is a chain of terms with two kinds of links. -/
theorem exprWith_mirrored :
    Mirrored capacity (exprWith inside) (ParseM.exprWith inner) Expr.line Expr.store := by
  intro claims entries start
  refine .repeating fun n => ?_
  refine Chain.mirrored _ .term Sign.join (termWith_mirrored inners) .sign? rfl ?_
    (fun _ => ⟨rfl, fun _ => rfl⟩) (fun sign _ _ => ?_) n claims entries start
  · intro n
    refine congrArg ParseM.node (bind_congr fun t => ?_)
    rw [sign?_bind]
    refine bind_congr fun token => ?_
    cases token with
    | mark sign => cases sign <;> rfl
    | _ => rfl
  · cases sign <;> exact ⟨rfl, fun _ => rfl⟩

end

/-- The inside of parentheses, by induction on the levels that may still be entered. -/
theorem innerExpr_mirrored (levels : Nat) :
    Mirrored capacity (innerExpr levels) (ParseM.innerExpr levels) Expr.line Expr.store := by
  induction levels with
  | zero => exact fun _ _ _ => .tooDeep
  | succ levels ih =>
    exact fun claims entries start => .nested (exprWith_mirrored ih claims entries start)

theorem operand_mirrored (levels : Nat) :
    Mirrored capacity (operand levels) (ParseM.operand levels) Operand.line Operand.store :=
  operandWith_mirrored (innerExpr_mirrored levels)

theorem expr_mirrored (levels : Nat) :
    Mirrored capacity (expr levels) (ParseM.expr levels) Expr.line Expr.store :=
  exprWith_mirrored (innerExpr_mirrored levels)

/-! ### Conditions -/

/-- The sign of a comparison is a node with a line of its own. -/
theorem compOp_mirrors (claims : Nat) (entries : Array Entry) (start : Nat) :
    Mirrors capacity claims claims entries start compOp ParseM.compOp
      fun op id entries' => id = lastStored entries' ∧
        entries' = entries.push ⟨.compOp op, start⟩ := by
  refine .node (.peek fun token => ?_)
  cases ParseM.comparator? token with
  | some op => exact .plain .advance fun _ _ => .alloc ⟨by simp [lastStored], rfl⟩
  | none => exact .unexpected _

/-- A comparison adds its node behind those of its three parts. -/
theorem comparison_mirrored (levels : Nat) :
    Mirrored capacity (comparison levels) (ParseM.comparison levels) Comparison.line
      Comparison.store := by
  intro claims entries start
  refine .node (.peekLine (.plain (.expect _ _) fun _ _ => ?_))
  refine .bind (operand_mirrored levels _ _ _) fun left id₁ entries₁ _ posted => ?_
  obtain ⟨-, rfl, rfl⟩ := posted
  refine .peekLine (.bind (compOp_mirrors _ _ _) fun op id₂ entries₂ _ posted => ?_)
  obtain ⟨rfl, rfl⟩ := posted
  refine .bind (operand_mirrored levels _ _ _) fun right id₃ entries₃ _ posted => ?_
  obtain ⟨-, rfl, rfl⟩ := posted
  exact .plain (.expect _ _) fun _ _ => .alloc ⟨rfl, by simp [lastStored], rfl⟩

section

variable {levels : Nat} {inside : BuildM NodeId} {inner : ParseM (Cond Symbol)}
  (inners : Mirrored capacity inside inner Cond.line Cond.store)

include inners

/-- What follows the operator of a compound condition; `node` and `join` are made for it. -/
theorem compound_settles (node : NodeId → NodeId → Node)
    (join : Cond Symbol → Cond Symbol → Cond Symbol) {claims : Nat} {entries : Array Entry}
    {start line' : Nat} (left : Cond Symbol) (first : ∀ right, (join left right).line = start)
    (stored : ∀ right, (join left right).store entries =
      let a := left.store entries
      let b := right.store a
      b.push ⟨node (lastStored a) (lastStored b), start⟩) :
    Settles capacity claims (left.store entries) line'
      (do
        ParseM.advance
        let right ← inside
        ParseM.expect (.mark .closeBracket) .closeBracket
        alloc (node (lastStored (left.store entries)) right) start)
      (do
        ParseM.advance
        let right ← inner
        ParseM.expect (.mark .closeBracket) .closeBracket
        return join left right) fun c id entries' =>
        c.line = start ∧ id = lastStored entries' ∧ entries' = c.store entries := by
  refine .plain .advance fun _ _ => .bind (inners _ _ _) fun right id entries' _ posted => ?_
  obtain ⟨-, rfl, rfl⟩ := posted
  refine .plain (.expect _ _) fun _ _ => .alloc ⟨first right, by simp [lastStored], ?_⟩
  rw [stored]

omit inners in
/-- A condition that is a comparison begins on the same line as this. -/
theorem compare_settles (claims : Nat) (entries : Array Entry) (start : Nat) :
    Settles capacity claims entries start
      (comparison levels >>= fun c => alloc (.condCompare c) start)
      (ParseM.comparison levels >>= fun c => pure (Cond.compare c)) fun c id entries' =>
        c.line = start ∧ id = lastStored entries' ∧ entries' = c.store entries := by
  refine .bind (comparison_mirrored levels _ _ _) fun c id entries' _ posted => ?_
  obtain ⟨first, rfl, rfl⟩ := posted
  exact .alloc ⟨first, by simp [lastStored], by rw [Cond.store, first]⟩

/-- A condition that starts with no `!`, behind the claim of its node. -/
theorem plainCondAt_settles (claims : Nat) (entries : Array Entry) (start : Nat) :
    Settles capacity claims entries start (plainCondAt levels inside start)
      (ParseM.plainCond levels inner) fun c id entries' =>
        c.line = start ∧ id = lastStored entries' ∧ entries' = c.store entries := by
  refine .peekLine (.peek fun token => ?_)
  cases token with
  | mark sign =>
    cases sign with
    | openBracket =>
      refine .plain .advance fun _ _ => .bind (inners _ _ _) fun left id entries' _ posted => ?_
      obtain ⟨-, rfl, rfl⟩ := posted
      refine .peek fun token => ?_
      cases token with
      | mark sign =>
        cases sign with
        | andAnd =>
          exact compound_settles inners .condAnd (.and start) left (fun _ => rfl) fun _ => rfl
        | orOr => exact compound_settles inners .condOr (.or start) left (fun _ => rfl) fun _ => rfl
        | _ => exact .unexpected _
      | _ => exact .unexpected _
    | _ => exact compare_settles _ _ _
  | _ => exact compare_settles _ _ _

/-- A condition, by induction on the negations that it may have. -/
theorem condUpTo_mirrored (n : Nat) :
    Mirrored capacity (condUpTo levels inside n []) (ParseM.condUpTo levels inner n) Cond.line
      Cond.store := by
  induction n with
  | zero =>
    intro claims entries start
    rw [condUpTo_zero]
    exact .node (plainCondAt_settles inners claims entries start)
  | succ n ih =>
    intro claims entries start
    rw [condUpTo_succ]
    refine .node (.peek fun token => ?_)
    cases token with
    | mark sign =>
      cases sign with
      | bang =>
        refine .peekLine (.plain .advance fun _ _ => ?_)
        refine .bind (ih _ _ _) fun c id entries' _ posted => ?_
        obtain ⟨-, rfl, rfl⟩ := posted
        exact .alloc ⟨rfl, by simp [lastStored], rfl⟩
      | _ => exact plainCondAt_settles inners claims entries start
    | _ => exact plainCondAt_settles inners claims entries start

theorem condWith_mirrored :
    Mirrored capacity (condWith levels inside) (ParseM.condWith levels inner) Cond.line
      Cond.store :=
  fun claims entries start => .repeating fun n => condUpTo_mirrored inners n claims entries start

end

/-- The inside of brackets, by induction on the levels that may still be entered. -/
theorem innerCond_mirrored (levels : Nat) :
    Mirrored capacity (innerCond levels) (ParseM.innerCond levels) Cond.line Cond.store := by
  induction levels with
  | zero => exact fun _ _ _ => .tooDeep
  | succ levels ih =>
    exact fun claims entries start => .nested (condWith_mirrored ih claims entries start)

theorem cond_mirrored (levels : Nat) :
    Mirrored capacity (cond levels) (ParseM.cond levels) Cond.line Cond.store :=
  condWith_mirrored (innerCond_mirrored levels)

/-! ### Statements -/

/-- A rule for what a statement does: the node of the statement itself is still missing. -/
def Inner (capacity : Nat) (form : StmtForm) (builds : BuildM NodeId)
    (reads : ParseM (Stmt Symbol)) : Prop :=
  ∀ claims entries start, Mirrors capacity claims claims entries start builds reads
    fun s id entries' => s.line = start ∧ id = lastStored entries' ∧
      s.store entries = storeStmt form start entries'

/-- An assignment begins on the line of its target. -/
theorem assignment_inner (levels : Nat) :
    Inner capacity .assign (assignment levels) (ParseM.assignment levels) := by
  intro claims entries start
  refine .node (.bind (identifier_mirrored _ _ _ _) fun target id₁ entries₁ _ posted => ?_)
  obtain ⟨first, rfl, rfl⟩ := posted
  refine .plain (.expect _ _) fun _ _ => ?_
  refine .bind (expr_mirrored levels _ _ _) fun value id₂ entries₂ _ posted => ?_
  obtain ⟨-, rfl, rfl⟩ := posted
  refine .plain (.expect _ _) fun _ _ => .alloc ⟨first, by simp [lastStored], ?_⟩
  rw [Stmt.store, first]

/-- A `read` or `write` statement, whose node `node` makes. -/
theorem transfer_mirrors (node : NodeId → Node) (claims : Nat) (entries : Array Entry)
    (start : Nat) :
    Mirrors capacity claims claims entries start (transfer node) ParseM.transfer
      fun ids id entries' => id = lastStored entries' ∧
        entries' = (ids.store entries).push ⟨node (lastStored (ids.store entries)), start⟩ := by
  refine .node (.plain .advance fun _ _ => ?_)
  refine .bind (idList_mirrored _ _ _ _) fun ids id entries' _ posted => ?_
  obtain ⟨-, rfl, rfl⟩ := posted
  exact .plain (.expect _ _) fun _ _ => .alloc ⟨by simp [lastStored], rfl⟩

/-- The node of a statement is put behind that of what it does. -/
theorem stmt_settles {form : StmtForm} {builds : BuildM NodeId} {reads : ParseM (Stmt Symbol)}
    (inner : Inner capacity form builds reads) (claims : Nat) (entries : Array Entry)
    (start : Nat) :
    Settles capacity claims entries start (builds >>= fun id => alloc (.stmt form id) start) reads
      fun s id entries' => s.line = start ∧ id = lastStored entries' ∧
        entries' = s.store entries := by
  refine (inner _ _ _).bind fun s id entries' _ posted => ?_
  obtain ⟨first, rfl, stored⟩ := posted
  exact .alloc ⟨first, by simp [lastStored], stored.symm⟩

section

variable {levels : Nat} {block : BuildM NodeId} {inner : ParseM (StmtSeq Symbol)}
  (inners : Mirrored capacity block inner StmtSeq.line StmtSeq.store)

include inners

theorem loop_inner : Inner capacity .whileStmt (loop levels block) (ParseM.loop levels inner) := by
  intro claims entries start
  refine .node (.peekLine (.plain .advance fun _ _ => ?_))
  refine .bind (cond_mirrored levels _ _ _) fun c id₁ entries₁ _ posted => ?_
  obtain ⟨-, rfl, rfl⟩ := posted
  refine .plain (.expect _ _) fun _ _ => .bind (inners _ _ _) fun body id₂ entries₂ _ posted => ?_
  obtain ⟨-, rfl, rfl⟩ := posted
  exact .plain .blockEnd fun _ _ => .alloc ⟨rfl, by simp [lastStored], rfl⟩

/-- An `if`, with one block or two. -/
theorem conditional_inner :
    Inner capacity .ifStmt (conditional levels block) (ParseM.conditional levels inner) := by
  intro claims entries start
  refine .node (.peekLine (.plain .advance fun _ _ => ?_))
  refine .bind (cond_mirrored levels _ _ _) fun c id₁ entries₁ _ posted => ?_
  obtain ⟨-, rfl, rfl⟩ := posted
  refine .plain (.expect _ _) fun _ _ => .bind (inners _ _ _) fun body id₂ entries₂ _ posted => ?_
  obtain ⟨-, rfl, rfl⟩ := posted
  refine .peek fun token => ?_
  cases token with
  | keyword word =>
    cases word with
    | elseWord =>
      refine .plain .advance fun _ _ => .bind (inners _ _ _) fun other id₃ entries₃ _ posted => ?_
      obtain ⟨-, rfl, rfl⟩ := posted
      exact .plain .blockEnd fun _ _ => .alloc ⟨rfl, by simp [lastStored], rfl⟩
    | endWord => exact .plain .blockEnd fun _ _ => .alloc ⟨rfl, by simp [lastStored], rfl⟩
    | _ => exact .unexpected _
  | _ => exact .unexpected _

/-- A statement: the token ahead tells its form on both sides. -/
theorem stmtWith_mirrored :
    Mirrored capacity (stmtWith levels block) (ParseM.stmtWith levels inner) Stmt.line
      Stmt.store := by
  intro claims entries start
  refine .node (.peekLine (.peek fun token => ?_))
  cases token with
  | identifier name => exact stmt_settles (assignment_inner levels) claims entries start
  | keyword word =>
    cases word with
    | ifWord => exact stmt_settles (conditional_inner inners) claims entries start
    | whileWord => exact stmt_settles (loop_inner inners) claims entries start
    | readWord | writeWord =>
      refine .bind (transfer_mirrors _ _ _ _) fun ids id entries' _ posted => ?_
      obtain ⟨rfl, rfl⟩ := posted
      exact .alloc ⟨rfl, by simp [lastStored], rfl⟩
    | _ => exact .unexpected _
  | _ => exact .unexpected _

/-- Statements are a chain without a mark between the items. -/
theorem stmtSeqWith_mirrored :
    Mirrored capacity (stmtSeqWith levels block) (ParseM.stmtSeqWith levels inner) StmtSeq.line
      StmtSeq.store := by
  intro claims entries start
  refine .repeating fun n => ?_
  refine Chain.mirrored _ .last (fun _ => .cons) (stmtWith_mirrored inners) (.ahead? _) rfl ?_
    (fun _ => ⟨rfl, fun _ => rfl⟩) (fun _ _ _ => ⟨rfl, fun _ => rfl⟩) n claims entries start
  intro n
  refine congrArg ParseM.node (bind_congr fun s => ?_)
  rw [ahead?_bind]

end

/-- The inside of a block, by induction on the levels that may still be entered. -/
theorem innerBlock_mirrored (levels : Nat) :
    Mirrored capacity (innerBlock levels) (ParseM.innerBlock levels) StmtSeq.line
      StmtSeq.store := by
  induction levels with
  | zero => exact fun _ _ _ => .tooDeep
  | succ levels ih =>
    exact fun claims entries start => .nested (stmtSeqWith_mirrored ih claims entries start)

theorem stmtSeq_mirrored (levels : Nat) :
    Mirrored capacity (stmtSeq levels) (ParseM.stmtSeq levels) StmtSeq.line StmtSeq.store :=
  stmtSeqWith_mirrored (innerBlock_mirrored levels)

/-! ### Programs -/

/-- From an empty tree, a program builds just the nodes that are stored for it. -/
theorem program_mirrors (claims start : Nat) :
    Mirrors capacity claims claims #[] start program ParseM.program
      fun p id entries => id = lastStored entries ∧ entries = p.store := by
  refine .node (.peekLine (.plain (.expect _ _) fun _ _ => ?_))
  refine .bind (declSeq_mirrored _ _ _) fun decls id₁ entries₁ _ posted => ?_
  obtain ⟨-, rfl, rfl⟩ := posted
  refine .plain (.expect _ _) fun _ _ => ?_
  refine .bind (stmtSeq_mirrored _ _ _ _) fun stmts id₂ entries₂ _ posted => ?_
  obtain ⟨-, rfl, rfl⟩ := posted
  refine .plain (.expect _ _) fun _ _ => .plain .nothingMore fun _ _ => ?_
  exact .alloc ⟨by simp [lastStored], rfl⟩

end BuildM

/-! ### Parses -/

namespace ParseState

variable {β : Type} {budget : β} {stream : TokenStream}

/-- What a parse starts with, but for the budget, is told by the text. -/
theorem startWith_eq_map {γ : Type} (budget : β) (budget' : γ) (stream : TokenStream) :
    startWith budget' stream = (startWith budget stream).map ({ · with budget := budget' }) := by
  obtain ⟨lexemes, ending⟩ := stream
  cases lexemes with
  | cons first rest => rfl
  | nil => cases ending <;> rfl

theorem budget_of_startWith {s : ParseState β} (begun : startWith budget stream = .ok s) :
    s.budget = budget := by
  have same := startWith_eq_map budget budget stream
  rw [begun] at same
  exact congrArg ParseState.budget (Except.ok.inj same)

/-- A text cannot be started on if it has a fault before its first token. -/
theorem startWith_error {e : ParseError} (h : startWith budget stream = .error e) :
    ∃ fault, stream = ⟨[], .fault fault⟩ ∧ e = .ofScan fault := by
  obtain ⟨lexemes, ending⟩ := stream
  cases lexemes with
  | cons first rest => cases h
  | nil =>
    cases ending with
    | eof line => cases h
    | fault fault => exact ⟨fault, rfl, (Except.error.inj h).symm⟩

/-- Reading a text starts where building its tree does. -/
theorem startWith_view {u : ParseState TreeBudget} {capacity : Nat}
    (begun : startWith (TreeBudget.ofCapacity capacity) stream = .ok u) :
    start capacity stream = .ok u.view := by
  have empty := budget_of_startWith begun
  rw [start, startWith_eq_map (TreeBudget.ofCapacity capacity), begun]
  simp [Except.map, view, empty, TreeBudget.account, TreeBudget.ofCapacity, Tree.ofCapacity,
    Tree.size]

end ParseState

namespace BuildM

variable {capacity : Nat} {u t : ParseState TreeBudget} {e : ParseError}

/-- The rule for programs: the nodes of the program that is read are in the tree, or the
reading has failed in the same way, or the tree has run out of numbers. -/
theorem program_cases (empty : u.budget = .ofCapacity capacity) :
    (∃ p t, ParseM.program u.view = .ok p t.view ∧ program u = .ok (lastStored p.store) t ∧
      t.budget.tree = ⟨capacity, p.store, none⟩ ∧ p.store.size ≤ capacity ∧
      p.store.size ≤ NodeId.limit) ∨
    (∃ e t t', ParseM.program u.view = .error e t ∧ program u = .error e t') ∨
    NodeId.limit < capacity ∧
      ∃ t, program u = .error (.tree (.capacityExceeded capacity)) t := by
  have sound : Sound capacity 0 #[] u := by
    refine ⟨?_, ?_, Nat.zero_le _, Nat.zero_le _⟩ <;> rw [empty]
    · rfl
    · exact Nat.zero_le _
  have matched := program_mirrors 0 u.lookahead.line u sound rfl
  generalize ParseM.program u.view = read, program u = built at matched
  cases matched with
  | overflow large => exact .inr (.inr ⟨large, _, rfl⟩)
  | error => exact .inr (.inl ⟨_, _, _, rfl, rfl⟩)
  | ok made =>
    obtain ⟨entries, sound', rfl, rfl⟩ := made
    exact .inl ⟨_, _, rfl, rfl, sound'.tree,
      Nat.le_trans (Nat.le_add_right _ _) sound'.room, sound'.numbered⟩

/-- The node of a program is in the tree, so it can be made the root. -/
theorem rootedProgram_of_ok {id : NodeId} (empty : u.budget = .ofCapacity capacity)
    (done : program u = .ok id t) :
    rootedProgram u = .ok () { t with budget.tree := { t.budget.tree with root := some id } } := by
  have there : id.index < t.budget.tree.size := by
    rcases program_cases empty with ⟨p, t', -, done', stored, -⟩ | ⟨e, t', t'', -, stopped⟩ |
      ⟨-, t', stopped⟩
    · obtain ⟨rfl, rfl⟩ := EStateM.Result.ok.inj (done.symm.trans done')
      rw [stored]
      simp [Tree.size, lastStored, Program.store]
    · cases done.symm.trans stopped
    · cases done.symm.trans stopped
  have rooted : t.budget.tree.setRoot id = .ok { t.budget.tree with root := some id } :=
    if_pos there
  simp only [rootedProgram, Bind.bind, EStateM.bind, done, setRoot, rooted]

theorem rootedProgram_of_error (stopped : program u = .error e t) :
    rootedProgram u = .error e t := by
  simp only [rootedProgram, Bind.bind, EStateM.bind, stopped]

end BuildM

section Parse

variable {source : String} {capacity : Nat} {u t : ParseState TreeBudget} {e : ParseError}

/-- A parse that cannot start has the fault before the first token. -/
theorem parse_of_start_error (stopped : ParseState.startWith (TreeBudget.ofCapacity capacity)
    (TokenStream.ofSource source) = .error e) : parse source capacity = .error e := by
  rw [parse, stopped]
  rfl

/-- A parse fails as the rule for programs does. -/
theorem parse_of_program_error (begun : ParseState.startWith (TreeBudget.ofCapacity capacity)
    (TokenStream.ofSource source) = .ok u) (stopped : BuildM.program u = .error e t) :
    parse source capacity = .error e := by
  simp only [parse, begun, Bind.bind, Except.bind, BuildM.rootedProgram_of_error stopped]

/-- What the rule for programs has built is the result of a parse, with the node of the program
as the root. -/
theorem parse_of_program_ok (begun : ParseState.startWith (TreeBudget.ofCapacity capacity)
    (TokenStream.ofSource source) = .ok u) {id : NodeId} (done : BuildM.program u = .ok id t) :
    parse source capacity =
      .ok { tree := { t.budget.tree with root := some id }, symbols := t.symbols } := by
  have rooted := BuildM.rootedProgram_of_ok (ParseState.budget_of_startWith begun) done
  simp only [parse, begun, Bind.bind, Except.bind, rooted]
  rfl

/-- A parse fails before the first token or in the rule for programs. -/
theorem parse_eq_error (failed : parse source capacity = .error e) :
    (∃ fault, TokenStream.ofSource source = ⟨[], .fault fault⟩ ∧ e = .ofScan fault) ∨
    ∃ u t, ParseState.startWith (TreeBudget.ofCapacity capacity) (TokenStream.ofSource source) =
      .ok u ∧ BuildM.program u = .error e t := by
  cases begun : ParseState.startWith (TreeBudget.ofCapacity capacity)
      (TokenStream.ofSource source) with
  | error e' =>
    obtain rfl := Except.error.inj (failed.symm.trans (parse_of_start_error begun))
    exact .inl (ParseState.startWith_error begun)
  | ok u =>
    cases done : BuildM.program u with
    | ok id t => cases failed.symm.trans (parse_of_program_ok begun done)
    | error e' t =>
      obtain rfl := Except.error.inj (failed.symm.trans (parse_of_program_error begun done))
      exact .inr ⟨u, t, rfl, done⟩

/-- A parse does what reading the text does: the program that is read is in the tree, or the
reading has failed in the same way. Only where the tree may have more nodes than can be
numbered, the parse may run out of numbers before. -/
theorem parse_cases (begun : ParseState.startWith (TreeBudget.ofCapacity capacity)
    (TokenStream.ofSource source) = .ok u) :
    (∃ p t tree, ParseM.program u.view = .ok p t ∧ Tree.ofProgram capacity p = .ok tree ∧
      parse source capacity = .ok { tree := tree, symbols := t.symbols }) ∨
    (∃ e t, ParseM.program u.view = .error e t ∧ parse source capacity = .error e) ∨
    NodeId.limit < capacity ∧
      parse source capacity = .error (.tree (.capacityExceeded capacity)) := by
  rcases BuildM.program_cases (ParseState.budget_of_startWith begun) with
    ⟨p, t, read, done, stored, small, numbered⟩ | ⟨e, t, t', read, stopped⟩ | ⟨large, t, stopped⟩
  · refine .inl ⟨p, t.view, _, read, if_pos ⟨small, numbered⟩, ?_⟩
    rw [parse_of_program_ok begun done, stored]
    rfl
  · exact .inr (.inl ⟨e, t, read, parse_of_program_error begun stopped⟩)
  · exact .inr (.inr ⟨large, parse_of_program_error begun stopped⟩)

end Parse

end CoreLang
