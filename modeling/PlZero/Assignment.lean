import PlZero.Expr
import PlZero.Fault

/-! Parallel assignments. Targets and values are kept in pairs, so the two sides cannot
differ in length; each slot of a pair can be replaced on its own. -/

namespace PlZero

structure Assignment where
  loc : Location
  pairs : List (Expr × Expr)
  deriving DecidableEq, Repr

namespace Assignment

/-- Pairs the targets with the values, if there are as many of the one as of the other. -/
def ofSides (loc : Location) (targets values : List Expr) : Except Fault Assignment :=
  if targets.length = values.length then .ok ⟨loc, targets.zip values⟩
  else .error (.arityMismatch targets.length values.length loc.line)

def single (loc : Location) (target value : Expr) : Assignment := ⟨loc, [(target, value)]⟩

variable (a : Assignment)

def length : Nat := a.pairs.length

def targets : List Expr := a.pairs.map (·.1)

def values : List Expr := a.pairs.map (·.2)

def pair? (i : Nat) : Option (Expr × Expr) := a.pairs[i]?

/-- Puts `e` into target slot `i` and gives back what the slot held. -/
def setTarget (i : Nat) (e : Expr) : Except Fault (Expr × Assignment) :=
  match a.pairs[i]? with
  | some (target, value) => .ok (target, { a with pairs := a.pairs.set i (e, value) })
  | none => .error (.slotOutOfRange i a.length a.loc.line)

/-- Puts `e` into value slot `i` and gives back what the slot held. -/
def setValue (i : Nat) (e : Expr) : Except Fault (Expr × Assignment) :=
  match a.pairs[i]? with
  | some (target, value) => .ok (value, { a with pairs := a.pairs.set i (target, e) })
  | none => .error (.slotOutOfRange i a.length a.loc.line)

/-- All targets, then all values. -/
def text : String :=
  ", ".intercalate (a.targets.map Expr.text) ++ " := " ++
    ", ".intercalate (a.values.map Expr.text)

end Assignment

end PlZero
