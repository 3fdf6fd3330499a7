import PlZero.Location

/-! Everything that can be wrong with a table operation, a tree or a name. The same
type serves for faults that stop an operation and for the diagnostics that a pass
collects while it goes on. -/

namespace PlZero

inductive Fault where
  | arityMismatch (targets values line : Nat)
  | slotOutOfRange (index length line : Nat)
  | undefinedSymbol (name : String) (line : Nat)
  | typeMismatch (expected found name : String) (line : Nat)
  | symbolAlreadyDefined (name : String) (line : Nat)
  | invalidIdentifier (name : String) (line : Nat)
  | unknownScope (scope : ScopeId)
  | unknownProcedure (procedure : ProcedureId)
  | compilation (stage detail : String)
  deriving DecidableEq, Repr

namespace Fault

def message : Fault → String
  | arityMismatch targets values line =>
    s!"Arity mismatch at line {line}: {targets} target(s) but {values} value(s)"
  | slotOutOfRange index length line =>
    s!"Slot {index} out of range at line {line}: assignment has {length} pair(s)"
  | undefinedSymbol name line => s!"Undefined symbol '{name}' at line {line}"
  | typeMismatch expected found name line =>
    s!"Type mismatch at line {line}: expected {expected} but found {found} for '{name}'"
  | symbolAlreadyDefined name line => s!"Symbol '{name}' already defined at line {line}"
  | invalidIdentifier name line => s!"Invalid identifier '{name}' at line {line}"
  | unknownScope scope => s!"Unknown scope #{scope.index}"
  | unknownProcedure procedure => s!"Unknown procedure entry #{procedure.index}"
  | compilation stage detail => s!"Compilation error in {stage}: {detail}"

/-- The source line a fault points at; faults about handles and whole runs have none. -/
def line? : Fault → Option Nat
  | arityMismatch _ _ line | slotOutOfRange _ _ line | undefinedSymbol _ line
  | typeMismatch _ _ _ line | symbolAlreadyDefined _ line | invalidIdentifier _ line => some line
  | unknownScope _ | unknownProcedure _ | compilation _ _ => none

end Fault

end PlZero
