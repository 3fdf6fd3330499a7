import PlZero.Location
import PlZero.Operator

/-! Expressions. Every node carries its own location, and equality compares locations
too. Names occur either unresolved, as identifiers, or resolved, as variables with the
scope that declares them. Constant folding replaces an operator on constants by its result
wherever it has one, at the operator's own location. -/

namespace PlZero

/-- The two conversions between ranges of values. -/
inductive Coercion where
  | narrow
  | widen
  deriving DecidableEq, Repr

namespace Coercion

def name : Coercion → String
  | narrow => "narrow"
  | widen => "widen"

end Coercion

inductive Expr where
  /-- Stands where the source text had no usable expression. -/
  | error (loc : Location)
  | const (loc : Location) (value : Int64)
  | identifier (loc : Location) (name : String)
  | var (loc : Location) (name : String) (scope : ScopeId)
  | unary (loc : Location) (op : UnaryOp) (operand : Expr)
  | binary (loc : Location) (op : BinaryOp) (left right : Expr)
  | coerce (loc : Location) (coercion : Coercion) (operand : Expr)
  deriving DecidableEq, Repr

namespace Expr

instance : Inhabited Expr := ⟨.error default⟩

def location : Expr → Location
  | error loc | const loc _ | identifier loc _ | var loc _ _
  | unary loc _ _ | binary loc _ _ _ | coerce loc _ _ => loc

/-- A coercion that stands where its operand stands. -/
def coerced (coercion : Coercion) (operand : Expr) : Expr :=
  coerce operand.location coercion operand

def isError : Expr → Bool
  | error _ => true
  | _ => false

/-- A name, resolved or not, can be assigned to. -/
def isLvalue : Expr → Bool
  | identifier _ _ | var _ _ _ => true
  | _ => false

def constant? : Expr → Option Int64
  | const _ value => some value
  | _ => none

/-- The text that stands for an unusable expression. -/
def errorMark : String := "<error>"

/-- Binary expressions are always parenthesised; unary ones never are. -/
def text : Expr → String
  | error _ => errorMark
  | const _ value => toString value.toInt
  | identifier _ name => name
  | var _ name _ => name
  | unary _ .neg e => "-" ++ e.text
  | unary _ .odd e => "odd " ++ e.text
  | binary _ op l r => "(" ++ l.text ++ " " ++ op.symbol ++ " " ++ r.text ++ ")"
  | coerce _ c e => c.name ++ "(" ++ e.text ++ ")"

instance : ToString Expr := ⟨text⟩

/-! ### Constant folding -/

/-- The folded expression, or `none` when nothing in it can be folded. A coercion whose
operand changed stands where the new operand stands. -/
def fold? : Expr → Option Expr
  | unary loc op e =>
    let folded := e.fold?
    match (folded.getD e).constant?.bind op.apply with
    | some value => some (const loc value)
    | none => folded.map (unary loc op)
  | binary loc op l r =>
    let left := l.fold?
    let right := r.fold?
    let value := do op.apply (← (left.getD l).constant?) (← (right.getD r).constant?)
    match value with
    | some value => some (const loc value)
    | none =>
      if left.isNone && right.isNone then none
      else some (binary loc op (left.getD l) (right.getD r))
  | coerce _ c e => e.fold?.map (coerced c)
  | error _ | const _ _ | identifier _ _ | var _ _ _ => none

end Expr

end PlZero
