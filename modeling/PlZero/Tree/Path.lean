import PlZero.Tree.Basic

/-! Addressing the nodes of a tree. A path lists child positions from the root down. -/

namespace PlZero

/-- Trees of these categories are nodes; those of the others are lists of nodes. -/
def Category.isNode : Category → Bool
  | statement | block | branch => true
  | sequence | procedures | branches => false

namespace Tree

/-- The node at a path. -/
def at? (s : Statement) : List Nat → Option Statement
  | [] => some s
  | i :: path => s.children[i]?.bind (·.at? path)

/-- Changes the node at a path, keeping its category, and gives back what the change
yields besides; `none` when the path leads nowhere. -/
def updateAt? {α : Type} (f : {c : Category} → Tree c → Tree c × α) :
    {c : Category} → Tree c → List Nat → Option (Tree c × α)
  | c, t, [] => if c.isNode then some (f t) else none
  | _, list loc ss, i :: path =>
    (ss.updateAt? f (i :: path)).map fun (ss, a) => (list loc ss, a)
  | _, conditional loc e yes no, i :: path =>
    match i with
    | 0 => (yes.updateAt? f path).map fun (yes, a) => (conditional loc e yes no, a)
    | 1 => (no.updateAt? f path).map fun (no, a) => (conditional loc e yes no, a)
    | _ => none
  | _, whileLoop loc e body, i :: path =>
    if i = 0 then (body.updateAt? f path).map fun (body, a) => (whileLoop loc e body, a)
    else none
  | _, doLoop loc bs, i :: path =>
    (bs.updateAt? f (i :: path)).map fun (bs, a) => (doLoop loc bs, a)
  | _, ofBlock b, i :: path => (b.updateAt? f (i :: path)).map fun (b, a) => (ofBlock b, a)
  | _, ofBranch b, i :: path => (b.updateAt? f (i :: path)).map fun (b, a) => (ofBranch b, a)
  | _, cons s rest, i :: path =>
    match i with
    | 0 => (s.updateAt? f path).map fun (s, a) => (cons s rest, a)
    | i + 1 => (rest.updateAt? f (i :: path)).map fun (rest, a) => (cons s rest, a)
  | _, block loc scope ps body, i :: path =>
    if i = ps.declarations.length then
      (body.updateAt? f path).map fun (body, a) => (block loc scope ps body, a)
    else (ps.updateAt? f (i :: path)).map fun (ps, a) => (block loc scope ps body, a)
  | _, procedure loc name entry body rest, i :: path =>
    match i with
    | 0 => (body.updateAt? f path).map fun (body, a) => (procedure loc name entry body rest, a)
    | i + 1 =>
      (rest.updateAt? f (i :: path)).map fun (rest, a) => (procedure loc name entry body rest, a)
  | _, branch loc e body exit, i :: path =>
    if i = 0 then (body.updateAt? f path).map fun (body, a) => (branch loc e body exit, a)
    else none
  | _, orBranch b rest, i :: path =>
    match i with
    | 0 => (b.updateAt? f path).map fun (b, a) => (orBranch b rest, a)
    | i + 1 => (rest.updateAt? f (i :: path)).map fun (rest, a) => (orBranch b rest, a)
  | _, error _, _ :: _ | _, skip _, _ :: _ | _, assign _, _ :: _ | _, read _ _, _ :: _
  | _, write _ _, _ :: _ | _, call _ _ _, _ :: _ | _, nil, _ :: _ | _, noProcedures, _ :: _
  | _, noBranches, _ :: _ => none

end Tree

end PlZero
