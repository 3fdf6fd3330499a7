/-! The twelve kinds of statement, in their fixed order. -/

namespace PlZero

inductive Kind where
  | error
  | block
  | assignment
  | read
  | write
  | call
  | list
  | conditional
  | whileLoop
  | skip
  | doLoop
  | doBranch
  deriving DecidableEq, Repr

namespace Kind

def all : List Kind :=
  [error, block, assignment, read, write, call, list, conditional, whileLoop, skip, doLoop,
    doBranch]

/-- The place of a kind in `all`. -/
def index : Kind → Fin 12
  | error => 0
  | block => 1
  | assignment => 2
  | read => 3
  | write => 4
  | call => 5
  | list => 6
  | conditional => 7
  | whileLoop => 8
  | skip => 9
  | doLoop => 10
  | doBranch => 11

theorem all_get_index (k : Kind) : all[k.index]? = some k := by cases k <;> rfl

def name : Kind → String
  | error => "Error"
  | block => "Block"
  | assignment => "Assignment"
  | read => "Read"
  | write => "Write"
  | call => "Call"
  | list => "List"
  | conditional => "If"
  | whileLoop => "While"
  | skip => "Skip"
  | doLoop => "Do"
  | doBranch => "DoBranch"

/-- The operation that a traversal performs at a node of this kind. -/
def operation : Kind → String
  | error => "visit_error"
  | block => "visit_block"
  | assignment => "visit_assignment"
  | read => "visit_read"
  | write => "visit_write"
  | call => "visit_call"
  | list => "visit_statement_list"
  | conditional => "visit_if"
  | whileLoop => "visit_while"
  | skip => "visit_skip"
  | doLoop => "visit_do"
  | doBranch => "visit_do_branch"

/-- Kinds that do something by themselves and hold no other statements. -/
def isSimple : Kind → Bool
  | assignment | read | write | call | skip => true
  | _ => false

end Kind

end PlZero
