import PlZero.Proofs.Tree.Path
import PlZero.Proofs.Tree.Sweep

/-! Where a pass is when it comes to a node. A pass goes through the children of a statement one
after another, so the state in which it comes to the node at a path is found by going down the
path; and what it makes of that node, as part of the tree, is what it makes of the node from
that state. -/

namespace PlZero

namespace Tree

variable {σ : Type} (p : SlotPass σ)

/-! ### Children one after another -/

def traverseAll : List Statement → σ → List Statement × σ
  | [], x => ([], x)
  | t :: ts, x =>
    ((t.traverse p x).1 :: (traverseAll ts (t.traverse p x).2).1,
      (traverseAll ts (t.traverse p x).2).2)

theorem traverseAll_append (ts us : List Statement) (x : σ) :
    traverseAll p (ts ++ us) x =
      ((traverseAll p ts x).1 ++ (traverseAll p us (traverseAll p ts x).2).1,
        (traverseAll p us (traverseAll p ts x).2).2) := by
  induction ts generalizing x with
  | nil => rfl
  | cons t ts ih => simp only [List.cons_append, traverseAll, ih]

theorem getElem?_traverseAll (ts : List Statement) (i : Nat) (x : σ) :
    (traverseAll p ts x).1[i]? =
      ts[i]?.map fun t => (t.traverse p (traverseAll p (ts.take i) x).2).1 := by
  induction ts generalizing i x with
  | nil => rfl
  | cons t ts ih =>
    cases i with
    | zero => rfl
    | succ i => exact ih i (t.traverse p x).2

/-- The state in which a pass comes to the first child of a statement. -/
def opening : Statement → σ → σ
  | conditional _ condition _ _, x | whileLoop _ condition _, x
  | ofBranch (branch _ condition _ _), x => (p.expr .value condition x).2
  | ofBlock b, x => (p.enter b.scope x).2
  | _, x => x

theorem parts_traverse {c : Category} (t : Tree c) (hc : c.isNode = false) (x : σ) :
    ((t.traverse p x).1.parts, (t.traverse p x).2) = traverseAll p t.parts x := by
  induction t generalizing x with
  | nil | noBranches | noProcedures => rfl
  | cons s rest _ ih => rw [parts, traverseAll, ← ih rfl]; rfl
  | orBranch b rest _ ih => rw [parts, traverseAll, ← ih rfl]; rfl
  | procedure loc name entry body rest _ ih => rw [parts, traverseAll, ← ih rfl]; rfl
  | _ => exact Bool.noConfusion hc

theorem children_traverse (t : Statement) (x : σ) :
    (t.traverse p x).1.children = (traverseAll p t.children (t.opening p x)).1 := by
  cases t with
  | error | skip | assign | read | write | call | conditional | whileLoop => rfl
  | list loc ss =>
    rw [children_list, ← parts_traverse p ss rfl]
    exact children_list loc _
  | doLoop loc bs =>
    rw [children_doLoop, ← parts_traverse p bs rfl]
    exact children_doLoop loc _
  | ofBlock b =>
    cases b with
    | block loc scope ps body =>
      rw [children_block, traverseAll_append, ← parts_traverse p ps rfl]
      exact children_block loc scope _ _
  | ofBranch b =>
    cases b with
    | branch => rfl

/-! ### Nodes -/

/-- The state in which a pass comes to the node at a path. -/
def arrival (t : Statement) : List Nat → σ → σ
  | [], x => x
  | i :: path, x =>
    t.children[i]?.elim x
      (·.arrival path (traverseAll p (t.children.take i) (t.opening p x)).2)

/-- A node of the tree that a pass gives back is what the pass makes of the node that was
there. -/
theorem at?_traverse (t : Statement) (path : List Nat) (x : σ) :
    (t.traverse p x).1.at? path =
      (t.at? path).map fun sub => (sub.traverse p (t.arrival p path x)).1 := by
  induction path generalizing t x with
  | nil => rfl
  | cons i path ih =>
    rw [at?, at?, arrival, children_traverse, getElem?_traverseAll]
    cases t.children[i]? with
    | none => rfl
    | some child => exact ih child _

end Tree

/-! ### The scope in which a pass arrives -/

namespace SlotPass.Follows

open PlZero.Tree

variable {σ : Type} {p : SlotPass σ} {visit : Site → σ → Site × σ} {At : σ → ScopeId → Prop}
  {x : σ} {s : ScopeId}

theorem stays_traverse (h : p.Follows visit At) (hs : At x s) {c : Category} (t : Tree c) :
    At (t.traverse p x).2 s :=
  h.stays_of_sweep hs (sites_traverse h t hs)

theorem stays_traverseAll (h : p.Follows visit At) (hs : At x s) (ts : List Statement) :
    At (traverseAll p ts x).2 s := by
  induction ts generalizing x with
  | nil => exact hs
  | cons t ts ih => exact ih (h.stays_traverse hs t)

theorem at_opening (h : p.Follows visit At) (hs : At x s) (t : Statement) :
    At (t.opening p x) (t.inside s) := by
  cases t with
  | conditional _ e _ _ => exact h.stays_expr hs .value e
  | whileLoop _ e _ => exact h.stays_expr hs .value e
  | ofBlock b => exact h.enters x b.scope
  | ofBranch b =>
    cases b with
    | branch _ e _ _ => exact h.stays_expr hs .value e
  | _ => exact hs

/-- A pass comes to a node in the scope of the innermost block around it. -/
theorem at_arrival (h : p.Follows visit At) (hs : At x s) {t sub : Statement} {path : List Nat}
    (hat : t.at? path = some sub) : At (t.arrival p path x) (t.scopeAt path s) := by
  induction path generalizing t x s with
  | nil => exact hs
  | cons i path ih =>
    obtain ⟨child, hchild, hat⟩ := Option.bind_eq_some_iff.1 hat
    rw [arrival, scopeAt, hchild]
    exact ih (h.stays_traverseAll (h.at_opening hs t) _) hat

end SlotPass.Follows

end PlZero
