import PlZero.ScopeTable.Lookup
import PlZero.Tree.Traversal

/-! Name resolution. Identifiers become variables with their declaring scope, or the
values of constants; calls get the entries of their procedures. A name that does not fit
is recorded as a diagnostic and, in an expression, leaves an error behind, and resolution
goes on. A scope that the table does not have stops it: the slots before that place keep
their new content, that slot and the ones after it stay as they were. -/

namespace PlZero

/-- What a resolver has recorded so far. It can be used for any number of trees. -/
structure Resolver where
  /-- The scopes of the blocks being resolved, innermost first. -/
  enclosing : List ScopeId := []
  diagnostics : List Fault := []
  resolvedCalls : Nat := 0
  deriving DecidableEq, Repr

namespace Resolver

/-- Names are looked up from here: outside all blocks, from the root. -/
def current (r : Resolver) : ScopeId := r.enclosing.head?.getD .root

/-- A step of resolution. What was recorded before a fault is kept. -/
abbrev Step := EStateM Fault Resolver

def record (fault : Fault) : Step Unit :=
  modify fun r => { r with diagnostics := r.diagnostics ++ [fault] }

/-- The kinds of name that a role admits, for a diagnostic. -/
def admitted : Role → String
  | .target => "Variable"
  | .value => "Variable or Constant"

/-- What an identifier becomes. -/
def bindName (table : ScopeTable) (role : Role) (loc : Location) (name : String) : Step Expr := do
  match table.nearest (← get).current name with
  | .error fault => throw fault
  | .ok none =>
    record (.undefinedSymbol name loc.line)
    return .error loc
  | .ok (some (scope, symbol)) =>
    match role, symbol.meaning with
    | _, .var => return .var loc name scope
    | .value, .constant value => return .const loc value
    | _, other =>
      record (.typeMismatch (admitted role) other.kindName name loc.line)
      return .error loc

/-- What an expression becomes, or `none` when there is no name in it. The operands of an
operator are values whatever the role of the whole; a coercion passes the role on, and
stands where its new operand stands. -/
def bindExpr (table : ScopeTable) : Role → Expr → Step (Option Expr)
  | role, .identifier loc id => return some (← bindName table role loc id)
  | _, .unary loc op e => return (← bindExpr table .value e).map (.unary loc op)
  | _, .binary loc op l r => do
    let left ← bindExpr table .value l
    let right ← bindExpr table .value r
    if left.isNone && right.isNone then return none
    else return some (.binary loc op (left.getD l) (right.getD r))
  | role, .coerce _ c e => return (← bindExpr table role e).map (.coerced c)
  | _, .error _ | _, .const _ _ | _, .var _ _ _ => return none

/-- The entry that a call is bound to, or `none` when its name is no procedure's. -/
def bindCall (table : ScopeTable) (loc : Location) (name : String) : Step (Option ProcedureId) := do
  match table.expect (← get).current name "Procedure" loc.line with
  | .ok symbol =>
    match symbol.meaning with
    | .procedure id =>
      modify fun r => { r with resolvedCalls := r.resolvedCalls + 1 }
      return some id
    | _ => return none
  | .error (.undefinedSymbol name line) =>
    record (.undefinedSymbol name line)
    return none
  | .error (.typeMismatch expected found name line) =>
    record (.typeMismatch expected found name line)
    return none
  | .error fault => throw fault

/-! ### Whole trees -/

/-- A resolver on its way through a tree, and the fault that stopped it, if one did. -/
structure Progress where
  resolver : Resolver
  fault : Option Fault := none

/-- Takes a step unless an earlier one failed; without a result the old content stays. -/
def attempt {α : Type} (step : Step (Option α)) (old : α) : StateM Progress α := fun p =>
  match p.fault with
  | some _ => (old, p)
  | none =>
    match step p.resolver with
    | .ok new r => (new.getD old, { resolver := r })
    | .error fault r => (old, { resolver := r, fault := some fault })

def pass (table : ScopeTable) : SlotPass Progress where
  expr role e := attempt (bindExpr table role e) e
  entry loc name old := attempt (return (← bindCall table loc name).map some) old
  enter scope := modify fun p =>
    { p with resolver := { p.resolver with enclosing := scope :: p.resolver.enclosing } }
  leave := modify fun p =>
    { p with resolver := { p.resolver with enclosing := p.resolver.enclosing.tail } }

/-- Resolves a tree: the tree with its new content, the fault that stopped the resolver,
if one did, and the resolver with what it recorded. -/
def resolve (table : ScopeTable) (r : Resolver) {c : Category} (t : Tree c) :
    Tree c × Except Fault Unit × Resolver :=
  let (t, p) := (t.traverse (pass table)).run { resolver := r }
  (t, p.fault.elim (.ok ()) .error, p.resolver)

end Resolver

/-- Resolves a whole program; the result is the diagnostics. -/
def Tree.resolveNames (table : ScopeTable) (program : Block) : Block × Except Fault (List Fault) :=
  let (program, result, r) := Resolver.resolve table {} program
  (program, result.map fun _ => r.diagnostics)

end PlZero
