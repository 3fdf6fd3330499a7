import PlZero.Fault

/-! A table of nested scopes. Scopes and procedure entries are appended and never
removed; a scope is reached by its index, knows its parent, and holds at most one
symbol for each name. An operation that fails gives no table, so the caller goes on
with the one it had. -/

namespace PlZero

/-! ### Names that may be declared

An ASCII letter or underscore, then ASCII letters, digits and underscores, with nothing before
or after. -/

/-- The same rule as a pattern, for display. -/
def identifierPattern : String := "^[A-Za-z_][A-Za-z0-9_]*$"

def startsIdentifier (c : Char) : Bool := c.isAlpha || c == '_'

def continuesIdentifier (c : Char) : Bool := c.isAlphanum || c == '_'

def isIdentifier (name : String) : Bool :=
  match name.toList with
  | [] => false
  | c :: rest => startsIdentifier c && rest.all continuesIdentifier

/-! ### Symbols and scopes -/

/-- What a declared name stands for. -/
inductive Meaning where
  | constant (value : Int64)
  | var
  | procedure (id : ProcedureId)
  deriving DecidableEq, Repr

namespace Meaning

def kindName : Meaning → String
  | constant _ => "Constant"
  | var => "Variable"
  | procedure _ => "Procedure"

end Meaning

structure Symbol where
  meaning : Meaning
  line : Nat
  level : Nat
  deriving DecidableEq, Repr

structure Scope where
  parent : Option ScopeId
  /-- How many scopes enclose this one. -/
  level : Nat
  symbols : List (String × Symbol) := []
  deriving DecidableEq, Repr

structure ProcedureEntry where
  name : String
  line : Nat
  definingScope : ScopeId
  localScope : ScopeId
  deriving DecidableEq, Repr

structure ScopeTable where
  scopes : Array Scope
  procedures : Array ProcedureEntry
  deriving DecidableEq, Repr

namespace ScopeTable

/-- The table with nothing but an empty root scope. -/
def empty : ScopeTable := ⟨#[{ parent := none, level := 0 }], #[]⟩

instance : Inhabited ScopeTable := ⟨empty⟩

variable (t : ScopeTable)

def scopeCount : Nat := t.scopes.size

def procedureCount : Nat := t.procedures.size

def scope (s : ScopeId) : Except Fault Scope :=
  match t.scopes[s.index]? with
  | some scope => .ok scope
  | none => .error (.unknownScope s)

def parent (s : ScopeId) : Except Fault (Option ScopeId) := return (← t.scope s).parent

def level (s : ScopeId) : Except Fault Nat := return (← t.scope s).level

def procedure (p : ProcedureId) : Except Fault ProcedureEntry :=
  match t.procedures[p.index]? with
  | some entry => .ok entry
  | none => .error (.unknownProcedure p)

/-- The symbol that the scope itself holds for a name, enclosing scopes aside. -/
def declared? (s : ScopeId) (name : String) : Option Symbol :=
  t.scopes[s.index]?.bind (·.symbols.lookup name)

/-! ### Growing a table -/

/-- Opens a new scope inside `s`. -/
def openScope (s : ScopeId) : Except Fault (ScopeId × ScopeTable) := do
  let scope ← t.scope s
  return (⟨t.scopes.size⟩,
    { t with scopes := t.scopes.push { parent := some s, level := scope.level + 1 } })

/-- Adds a symbol to the scope `s`. Of several faults the name's comes first. -/
def declare (s : ScopeId) (name : String) (symbol : Symbol) : Except Fault ScopeTable := do
  unless isIdentifier name do throw (.invalidIdentifier name symbol.line)
  let scope ← t.scope s
  if (scope.symbols.lookup name).isSome then throw (.symbolAlreadyDefined name symbol.line)
  let scope := { scope with symbols := (name, symbol) :: scope.symbols }
  return { t with scopes := t.scopes.setIfInBounds s.index scope }

/-- Declares a name with the level of its scope. Of several faults the scope's comes first. -/
def define (s : ScopeId) (name : String) (meaning : Meaning) (line : Nat) :
    Except Fault ScopeTable := do
  let level ← t.level s
  t.declare s name { meaning, line, level }

def defineConstant (s : ScopeId) (name : String) (value : Int64) (line : Nat) :
    Except Fault ScopeTable :=
  t.define s name (.constant value) line

def defineVariable (s : ScopeId) (name : String) (line : Nat) : Except Fault ScopeTable :=
  t.define s name .var line

/-- Declares a procedure, opens the scope for its locals and appends its entry. -/
def defineProcedure (s : ScopeId) (name : String) (line : Nat) :
    Except Fault (ProcedureId × ScopeTable) := do
  let id : ProcedureId := ⟨t.procedures.size⟩
  let declared ← t.define s name (.procedure id) line
  let (localScope, opened) ← declared.openScope s
  let entry : ProcedureEntry := { name, line, definingScope := s, localScope }
  return (id, { opened with procedures := opened.procedures.push entry })

end ScopeTable

end PlZero
