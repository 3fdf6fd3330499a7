import PlZero.Tree.Basic

/-! Counting the statements of a tree by kind. A tally can be kept and added to. -/

namespace PlZero

structure Tally where
  /-- Statements that do something by themselves. -/
  executed : Nat := 0
  errors : Nat := 0
  /-- How many statements there were of each kind, by `Kind.index`. -/
  visits : Vector Nat 12 := Vector.replicate 12 0
  deriving DecidableEq, Repr

namespace Tally

def count (t : Tally) (k : Kind) : Nat := t.visits[k.index]

/-- Counts one statement of the given kind. -/
def add (k : Kind) (t : Tally) : Tally where
  executed := if k.isSimple then t.executed + 1 else t.executed
  errors := if k = .error then t.errors + 1 else t.errors
  visits := t.visits.set k.index (t.visits[k.index] + 1)

end Tally

/-- Counts every statement of a tree, those of its procedures included. -/
def Tree.tally : {c : Category} → Tree c → Tally → Tally
  | _, error _, t => t.add .error
  | _, skip _, t => t.add .skip
  | _, assign _, t => t.add .assignment
  | _, read _ _, t => t.add .read
  | _, write _ _, t => t.add .write
  | _, call _ _ _, t => t.add .call
  | _, list _ ss, t => ss.tally (t.add .list)
  | _, conditional _ _ yes no, t => no.tally (yes.tally (t.add .conditional))
  | _, whileLoop _ _ body, t => body.tally (t.add .whileLoop)
  | _, doLoop _ bs, t => bs.tally (t.add .doLoop)
  | _, ofBlock b, t => b.tally t
  | _, ofBranch b, t => b.tally t
  | _, nil, t => t
  | _, cons s rest, t => rest.tally (s.tally t)
  | _, block _ _ ps body, t => body.tally (ps.tally (t.add .block))
  | _, noProcedures, t => t
  | _, procedure _ _ _ body rest, t => rest.tally (body.tally t)
  | _, branch _ _ body _, t => body.tally (t.add .doBranch)
  | _, noBranches, t => t
  | _, orBranch b rest, t => rest.tally (b.tally t)

end PlZero
