/-! The operators of expressions and their arithmetic on 64-bit constants. An operator
has no result where the exact integer result does not fit into a word. -/

namespace PlZero

/-- The word that holds `n`, if one does. -/
def checked (n : Int) : Option Int64 :=
  if Int64.minValue.toInt ≤ n ∧ n ≤ Int64.maxValue.toInt then some (Int64.ofInt n) else none

/-- Truth values are the constants one and zero. -/
def truth (b : Bool) : Int64 := if b then 1 else 0

inductive UnaryOp where
  | neg
  | odd
  deriving DecidableEq, Repr

namespace UnaryOp

def apply : UnaryOp → Int64 → Option Int64
  | neg, a => checked (-a.toInt)
  | odd, a => some (truth (a.toInt.tmod 2 != 0))

end UnaryOp

inductive BinaryOp where
  | add
  | sub
  | mul
  | div
  | equal
  | notEqual
  | less
  | lessEqual
  | greater
  | greaterEqual
  deriving DecidableEq, Repr

namespace BinaryOp

def symbol : BinaryOp → String
  | add => "+"
  | sub => "-"
  | mul => "*"
  | div => "/"
  | equal => "="
  | notEqual => "#"
  | less => "<"
  | lessEqual => "<="
  | greater => ">"
  | greaterEqual => ">="

def all : List BinaryOp :=
  [add, sub, mul, div, equal, notEqual, less, lessEqual, greater, greaterEqual]

def ofSymbol? (s : String) : Option BinaryOp := all.find? (·.symbol == s)

/-- Quotients are truncated toward zero; a zero divisor gives no result. -/
def apply : BinaryOp → Int64 → Int64 → Option Int64
  | add, a, b => checked (a.toInt + b.toInt)
  | sub, a, b => checked (a.toInt - b.toInt)
  | mul, a, b => checked (a.toInt * b.toInt)
  | div, a, b => if b.toInt = 0 then none else checked (a.toInt.tdiv b.toInt)
  | equal, a, b => some (truth (a.toInt = b.toInt))
  | notEqual, a, b => some (truth (a.toInt ≠ b.toInt))
  | less, a, b => some (truth (a.toInt < b.toInt))
  | lessEqual, a, b => some (truth (a.toInt ≤ b.toInt))
  | greater, a, b => some (truth (a.toInt > b.toInt))
  | greaterEqual, a, b => some (truth (a.toInt ≥ b.toInt))

end BinaryOp

end PlZero
