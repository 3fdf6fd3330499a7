/-! Source positions, and the handles by which trees refer to scopes and procedures.
A handle is only an index: whether a table has such a scope or procedure is for the
table to say. -/

namespace PlZero

/-- A place in the source text, both parts counted from one. -/
structure Location where
  line : Nat := 1
  column : Nat := 1
  deriving DecidableEq, Repr

instance : Inhabited Location := ⟨{}⟩

instance : ToString Location := ⟨fun loc => s!"{loc.line}:{loc.column}"⟩

/-- A scope, by its index in a table. -/
structure ScopeId where
  index : Nat
  deriving DecidableEq, Repr

/-- The outermost scope of every table. -/
def ScopeId.root : ScopeId := ⟨0⟩

instance : Inhabited ScopeId := ⟨.root⟩

instance : ToString ScopeId := ⟨fun s => s!"scope#{s.index}"⟩

/-- A procedure entry, by its index in a table. -/
structure ProcedureId where
  index : Nat
  deriving DecidableEq, Repr

instance : ToString ProcedureId := ⟨fun p => s!"proc#{p.index}"⟩

end PlZero
