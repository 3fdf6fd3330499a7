import PlZero.Tree.Basic

/-! Replacing what a single node holds. The shape of a tree is fixed once it is built;
its expressions and the entries of its calls are slots whose content can change. -/

namespace PlZero

/-- The expression slots a node may have. -/
inductive Slot where
  | target
  | value
  | condition
  deriving DecidableEq, Repr

namespace Tree

/-- Puts an expression into a slot of this very node and gives back what the slot held;
`none` when the node has no such slot. The slots of an assignment are indexed, those of
other nodes are not. -/
def replace (slot : Slot) (index : Option Nat) (e : Expr) :
    {c : Category} → Tree c → Option (Except Fault (Expr × Tree c))
  | _, assign a =>
    match slot, index with
    | .target, some i => some ((a.setTarget i e).map fun (old, a) => (old, assign a))
    | .value, some i => some ((a.setValue i e).map fun (old, a) => (old, assign a))
    | _, _ => none
  | _, read loc old => if slot = .target then some (.ok (old, read loc e)) else none
  | _, write loc old => if slot = .value then some (.ok (old, write loc e)) else none
  | _, conditional loc old yes no =>
    if slot = .condition then some (.ok (old, conditional loc e yes no)) else none
  | _, whileLoop loc old body =>
    if slot = .condition then some (.ok (old, whileLoop loc e body)) else none
  | _, branch loc old body exit =>
    if slot = .condition then some (.ok (old, branch loc e body exit)) else none
  | _, ofBranch b =>
    (b.replace slot index e).map fun result => result.map fun (old, b) => (old, ofBranch b)
  | _, _ => none

/-- Binds a call and gives back the entry it had; `none` when the node is no call. -/
def bind? (entry : ProcedureId) : {c : Category} → Tree c → Option (Option ProcedureId × Tree c)
  | _, call loc name old => some (old, call loc name (some entry))
  | _, _ => none

end Tree

end PlZero
