import CoreLang.Program

/-!
# Statements and the blocks around them

A program has the statements of its sequence and those inside them. Each is listed with
the number of conditionals and loops that it stands in, counted from where the listing
begins; a statement comes before the ones inside it.
-/

namespace CoreLang

variable {ι : Type}

/-- One block further in. -/
def deeper (stmts : List (Nat × Stmt ι)) : List (Nat × Stmt ι) :=
  stmts.map fun entry => (entry.1 + 1, entry.2)

mutual

/-- A statement and those inside it. -/
def Stmt.nested : Stmt ι → List (Nat × Stmt ι)
  | .assign target value => [(0, .assign target value)]
  | .read line ids => [(0, .read line ids)]
  | .write line ids => [(0, .write line ids)]
  | .ifThen line cond body => (0, .ifThen line cond body) :: deeper body.nested
  | .ifElse line cond body other =>
    (0, .ifElse line cond body other) :: deeper (body.nested ++ other.nested)
  | .whileLoop line cond body => (0, .whileLoop line cond body) :: deeper body.nested

/-- The statements of a sequence and those inside them. -/
def StmtSeq.nested : StmtSeq ι → List (Nat × Stmt ι)
  | .last s => s.nested
  | .cons s rest => s.nested ++ rest.nested

end

/-- A statement and those inside it, wherever they stand. -/
def Stmt.within (s : Stmt ι) : List (Stmt ι) :=
  s.nested.map Prod.snd

/-- The statements of a sequence and those inside them, wherever they stand. -/
def StmtSeq.within (ss : StmtSeq ι) : List (Stmt ι) :=
  ss.nested.map Prod.snd

theorem mem_deeper {stmts : List (Nat × Stmt ι)} {k : Nat} {s : Stmt ι} :
    (k, s) ∈ deeper stmts ↔ ∃ j, (j, s) ∈ stmts ∧ j + 1 = k := by
  simp [deeper]

theorem map_snd_deeper (stmts : List (Nat × Stmt ι)) :
    (deeper stmts).map Prod.snd = stmts.map Prod.snd := by
  simp [deeper]

namespace Stmt

variable {line : Nat} {cond : Cond ι} {body other : StmtSeq ι}

theorem mem_within (s : Stmt ι) : s ∈ s.within := by
  cases s <;> simp [within, nested]

theorem within_ifThen : (ifThen line cond body).within = .ifThen line cond body :: body.within := by
  simp [within, nested, map_snd_deeper, StmtSeq.within]

theorem within_ifElse : (ifElse line cond body other).within =
    .ifElse line cond body other :: (body.within ++ other.within) := by
  simp [within, nested, map_snd_deeper, StmtSeq.within]

theorem within_whileLoop :
    (whileLoop line cond body).within = .whileLoop line cond body :: body.within := by
  simp [within, nested, map_snd_deeper, StmtSeq.within]

end Stmt

namespace StmtSeq

theorem within_last (s : Stmt ι) : (last s).within = s.within := by
  simp [within, nested, Stmt.within]

theorem within_cons (s : Stmt ι) (rest : StmtSeq ι) :
    (cons s rest).within = s.within ++ rest.within := by
  simp [within, nested, Stmt.within]

end StmtSeq

end CoreLang
