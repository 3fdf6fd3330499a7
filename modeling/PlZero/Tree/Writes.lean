import PlZero.Tree.Basic

/-! The values that a tree writes, in the order of its text. Procedures are not looked
into, and a call stops the collection: what it writes is not known here. -/

namespace PlZero.Tree

/-- Appends the text of every written value to the state. At a call the name is refused
as undefined; the values found before it stay. -/
def collectWrites : {c : Category} → Tree c → EStateM Fault (Array String) Unit
  | _, write _ value => modify (·.push value.text)
  | _, call loc name _ => throw (.undefinedSymbol name loc.line)
  | _, list _ ss => ss.collectWrites
  | _, conditional _ _ yes no => do
    yes.collectWrites
    no.collectWrites
  | _, whileLoop _ _ body => body.collectWrites
  | _, doLoop _ bs => bs.collectWrites
  | _, ofBlock b => b.collectWrites
  | _, ofBranch b => b.collectWrites
  | _, cons s rest => do
    s.collectWrites
    rest.collectWrites
  | _, block _ _ _ body => body.collectWrites
  | _, branch _ _ body _ => body.collectWrites
  | _, orBranch b rest => do
    b.collectWrites
    rest.collectWrites
  | _, error _ | _, skip _ | _, assign _ | _, read _ _ | _, nil | _, noProcedures
  | _, procedure _ _ _ _ _ | _, noBranches => return

end PlZero.Tree
