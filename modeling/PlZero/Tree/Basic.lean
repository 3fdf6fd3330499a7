import PlZero.Assignment
import PlZero.Tree.Kind

/-! Statement trees. One inductive family holds all the parts of a program, indexed by
syntactic category, so that a recursive function on trees is one definition and a proof
about them one induction. Sequences, branch lists and procedure lists are categories of
their own, and so are blocks and branches: a procedure has a block for its body, and a do
loop has branches only. -/

namespace PlZero

inductive Category where
  | statement
  | sequence
  | block
  | procedures
  | branch
  | branches
  deriving DecidableEq, Repr

inductive Tree : Category → Type where
  /-- Stands where the source text had no usable statement. -/
  | error (loc : Location) : Tree .statement
  | skip (loc : Location) : Tree .statement
  | assign (assignment : Assignment) : Tree .statement
  | read (loc : Location) (target : Expr) : Tree .statement
  | write (loc : Location) (value : Expr) : Tree .statement
  /-- A call is bound once its entry is known. -/
  | call (loc : Location) (name : String) (entry : Option ProcedureId) : Tree .statement
  | list (loc : Location) (statements : Tree .sequence) : Tree .statement
  | conditional (loc : Location) (condition : Expr) (yes no : Tree .statement) : Tree .statement
  | whileLoop (loc : Location) (condition : Expr) (body : Tree .statement) : Tree .statement
  | doLoop (loc : Location) (branches : Tree .branches) : Tree .statement
  | ofBlock (block : Tree .block) : Tree .statement
  | ofBranch (branch : Tree .branch) : Tree .statement
  | nil : Tree .sequence
  | cons (head : Tree .statement) (tail : Tree .sequence) : Tree .sequence
  | block (loc : Location) (scope : ScopeId) (procedures : Tree .procedures)
      (body : Tree .statement) : Tree .block
  | noProcedures : Tree .procedures
  | procedure (loc : Location) (name : String) (entry : ProcedureId) (body : Tree .block)
      (rest : Tree .procedures) : Tree .procedures
  /-- The flag says whether the loop ends after this branch. -/
  | branch (loc : Location) (condition : Expr) (body : Tree .statement) (exit : Bool) : Tree .branch
  | noBranches : Tree .branches
  | orBranch (first : Tree .branch) (rest : Tree .branches) : Tree .branches
  deriving DecidableEq, Repr

abbrev Statement := Tree .statement

abbrev Block := Tree .block

abbrev Branch := Tree .branch

namespace Tree

/-! ### Lists of parts -/

def sequence : List Statement → Tree .sequence
  | [] => nil
  | s :: rest => cons s (sequence rest)

/-- The statements of a sequence; trees of other categories have none. -/
def statements : {c : Category} → Tree c → List Statement
  | _, cons s rest => s :: rest.statements
  | _, _ => []

def branches : List Branch → Tree .branches
  | [] => noBranches
  | b :: rest => orBranch b (branches rest)

/-- The branches of a branch list; trees of other categories have none. -/
def branchList : {c : Category} → Tree c → List Branch
  | _, orBranch b rest => b :: rest.branchList
  | _, _ => []

/-- A procedure declaration on its own. -/
structure Declaration where
  loc : Location
  name : String
  entry : ProcedureId
  body : Block

def procedures : List Declaration → Tree .procedures
  | [] => noProcedures
  | d :: rest => procedure d.loc d.name d.entry d.body (procedures rest)

/-- The declarations of a procedure list; trees of other categories have none. -/
def declarations : {c : Category} → Tree c → List Declaration
  | _, procedure loc name entry body rest => ⟨loc, name, entry, body⟩ :: rest.declarations
  | _, _ => []

@[simp] theorem statements_sequence (ss : List Statement) : (sequence ss).statements = ss := by
  induction ss with
  | nil => rfl
  | cons s rest ih => simp [sequence, statements, ih]

@[simp] theorem branchList_branches (bs : List Branch) : (branches bs).branchList = bs := by
  induction bs with
  | nil => rfl
  | cons b rest ih => simp [branches, branchList, ih]

@[simp] theorem declarations_procedures (ds : List Declaration) :
    (procedures ds).declarations = ds := by
  induction ds with
  | nil => rfl
  | cons d rest ih => simp [procedures, declarations, ih]

/-! ### Statements -/

/-- A conditional whose other side does nothing. -/
def ifThen (loc : Location) (condition : Expr) (yes : Statement) : Statement :=
  conditional loc condition yes (skip loc)

def kind : Statement → Kind
  | error _ => .error
  | skip _ => .skip
  | assign _ => .assignment
  | read _ _ => .read
  | write _ _ => .write
  | call _ _ _ => .call
  | list _ _ => .list
  | conditional _ _ _ _ => .conditional
  | whileLoop _ _ _ => .whileLoop
  | doLoop _ _ => .doLoop
  | ofBlock _ => .block
  | ofBranch _ => .doBranch

def location : Statement → Location
  | error loc | skip loc | read loc _ | write loc _ | call loc _ _ | list loc _
  | conditional loc _ _ _ | whileLoop loc _ _ | doLoop loc _ | ofBlock (block loc _ _ _)
  | ofBranch (branch loc _ _ _) => loc
  | assign a => a.loc

def isError : Statement → Bool
  | error _ => true
  | _ => false

/-- The statements directly below one, in order. The blocks of a block's procedures come
before its body. -/
def children : Statement → List Statement
  | list _ ss => ss.statements
  | conditional _ _ yes no => [yes, no]
  | whileLoop _ _ body => [body]
  | doLoop _ bs => bs.branchList.map ofBranch
  | ofBlock (block _ _ ps body) => ps.declarations.map (fun d => ofBlock d.body) ++ [body]
  | ofBranch (branch _ _ body _) => [body]
  | error _ | skip _ | assign _ | read _ _ | write _ _ | call _ _ _ => []

end Tree

end PlZero
