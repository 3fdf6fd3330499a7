import PlZero.ScopeTable.Basic

/-! Lookup of a name. A name means what the nearest scope that declares it says, going
outward from a scope through its parents. -/

namespace PlZero.ScopeTable

variable (t : ScopeTable)

/-- At most `count` scopes of the way from `s` outward. -/
def chainOf : Nat → ScopeId → List ScopeId
  | 0, _ => []
  | count + 1, s =>
    match t.scopes[s.index]? with
    | none => []
    | some scope => s :: (scope.parent.elim [] (chainOf count))

/-- The scope `s`, its parent, the parent's parent and so on. A parent is older than its
scope, so the table has no longer chain than it has scopes. -/
def chain (s : ScopeId) : List ScopeId := t.chainOf t.scopes.size s

/-- The nearest declaration of a name, with the scope that holds it. -/
def nearest (s : ScopeId) (name : String) : Except Fault (Option (ScopeId × Symbol)) := do
  let _ ← t.scope s
  return (t.chain s).findSome? fun d => (t.declared? d name).map (d, ·)

def lookup (s : ScopeId) (name : String) : Except Fault (Option Symbol) :=
  return (← t.nearest s name).map (·.2)

/-- The nearest declaration, with the number of levels that lie between. -/
def lookupWithDistance (s : ScopeId) (name : String) : Except Fault (Option (Symbol × Nat)) := do
  let level ← t.level s
  match ← t.nearest s name with
  | none => return none
  | some (d, symbol) => return some (symbol, level - (← t.level d))

def contains (s : ScopeId) (name : String) : Bool :=
  match t.nearest s name with
  | .ok found => found.isSome
  | .error _ => false

/-- The symbol of a name that has to be of the given kind. -/
def expect (s : ScopeId) (name kind : String) (line : Nat) : Except Fault Symbol := do
  match ← t.lookup s name with
  | none => throw (.undefinedSymbol name line)
  | some symbol =>
    if symbol.meaning.kindName = kind then return symbol
    else throw (.typeMismatch kind symbol.meaning.kindName name line)

end PlZero.ScopeTable
