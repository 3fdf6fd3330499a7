import PlZero.Tree.Basic

/-! Passes over a tree. A pass goes through the slots of a tree in a fixed order and may
put something else into each, while a state is handed from slot to slot. The condition of
a node comes before its parts, a target before its value, pair by pair, and the procedures
of a block come before its body. Constant folding is such a pass: values and conditions are
folded, targets are not, and the state counts the slots that changed. -/

namespace PlZero

/-- What an expression slot is there for. -/
inductive Role where
  | target
  | value
  deriving DecidableEq, Repr

/-- What a pass does at each kind of place, with a state of type `σ`. -/
structure SlotPass (σ : Type) where
  /-- At an expression slot: the expression to put there. -/
  expr : Role → Expr → StateM σ Expr
  /-- At a call: the entry to put there. -/
  entry : Location → String → Option ProcedureId → StateM σ (Option ProcedureId)
  /-- Before the parts of a block with this scope. -/
  enter : ScopeId → StateM σ Unit
  /-- After the parts of a block. -/
  leave : StateM σ Unit

namespace SlotPass

def pairs {σ : Type} (p : SlotPass σ) : List (Expr × Expr) → StateM σ (List (Expr × Expr))
  | [] => return []
  | (target, value) :: rest => do
    let target ← p.expr .target target
    let value ← p.expr .value value
    return (target, value) :: (← p.pairs rest)

end SlotPass

namespace Tree

def traverse {σ : Type} (p : SlotPass σ) : {c : Category} → Tree c → StateM σ (Tree c)
  | _, assign a => return assign { a with pairs := ← p.pairs a.pairs }
  | _, read loc target => return read loc (← p.expr .target target)
  | _, write loc value => return write loc (← p.expr .value value)
  | _, call loc name entry => return call loc name (← p.entry loc name entry)
  | _, list loc ss => return list loc (← ss.traverse p)
  | _, conditional loc condition yes no => do
    let condition ← p.expr .value condition
    let yes ← yes.traverse p
    return conditional loc condition yes (← no.traverse p)
  | _, whileLoop loc condition body => do
    let condition ← p.expr .value condition
    return whileLoop loc condition (← body.traverse p)
  | _, doLoop loc bs => return doLoop loc (← bs.traverse p)
  | _, ofBlock b => return ofBlock (← b.traverse p)
  | _, ofBranch b => return ofBranch (← b.traverse p)
  | _, cons s rest => do
    let s ← s.traverse p
    return cons s (← rest.traverse p)
  | _, block loc scope ps body => do
    p.enter scope
    let ps ← ps.traverse p
    let body ← body.traverse p
    p.leave
    return block loc scope ps body
  | _, procedure loc name entry body rest => do
    let body ← body.traverse p
    return procedure loc name entry body (← rest.traverse p)
  | _, branch loc condition body exit => do
    let condition ← p.expr .value condition
    return branch loc condition (← body.traverse p) exit
  | _, orBranch b rest => do
    let b ← b.traverse p
    return orBranch b (← rest.traverse p)
  | _, error loc => return error loc
  | _, skip loc => return skip loc
  | _, nil => return nil
  | _, noProcedures => return noProcedures
  | _, noBranches => return noBranches

end Tree

/-! ### Constant folding -/

namespace SlotPass

def folding : SlotPass Nat where
  expr
    | .target, e => return e
    | .value, e =>
      match e.fold? with
      | some folded => do
        modify (· + 1)
        return folded
      | none => return e
  entry _ _ entry := return entry
  enter _ := return
  leave := return

end SlotPass

/-- Folds all constants of a tree and adds the number of changed slots to the state. -/
def Tree.foldConstants {c : Category} (t : Tree c) : StateM Nat (Tree c) :=
  t.traverse .folding

end PlZero
