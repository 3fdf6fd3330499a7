import PlZero.ScopeTable.Basic
import PlZero.Tree.Basic

/-! The built-in sample programs, each with the table that its scopes and procedure
entries point into. -/

namespace PlZero

structure Sample where
  name : String
  table : ScopeTable
  program : Block

namespace Sample

private def ident (line column : Nat) (name : String) : Expr := .identifier ⟨line, column⟩ name

private def number (line column : Nat) (value : Int64) : Expr := .const ⟨line, column⟩ value

private def operation (line column : Nat) (op : BinaryOp) (left right : Expr) : Expr :=
  .binary ⟨line, column⟩ op left right

/-- An assignment at the start of its line. -/
private def assignTo (line : Nat) (target : String) (value : Expr) : Statement :=
  .assign (.single ⟨line, 3⟩ (ident line 3 target) value)

private def listOf (line column : Nat) (statements : List Statement) : Statement :=
  .list ⟨line, column⟩ (.sequence statements)

private def rootBlock (procedures : List Tree.Declaration) (line column : Nat)
    (body : Statement) : Block :=
  .block ⟨line, column⟩ .root (.procedures procedures) body

/-- Two variables are set, exchanged by a parallel assignment, and written. -/
def swap : Except Fault Sample := do
  let table ← ScopeTable.empty.defineVariable .root "a" 1
  let table ← table.defineVariable .root "b" 1
  let exchange ← Assignment.ofSides ⟨5, 3⟩
    [ident 5 3 "a", ident 5 6 "b"] [ident 5 11 "b", ident 5 14 "a"]
  let body := listOf 3 3 [
    assignTo 3 "a" (number 3 8 1),
    assignTo 4 "b" (number 4 8 2),
    .assign exchange,
    .write ⟨6, 3⟩ (ident 6 9 "a"),
    .write ⟨7, 3⟩ (ident 7 9 "b")]
  return { name := "swap", table, program := rootBlock [] 2 1 body }

/-- The greatest common divisor of two numbers, by a guarded loop. -/
def guarded : Except Fault Sample := do
  let table ← ScopeTable.empty.defineVariable .root "x" 1
  let table ← table.defineVariable .root "y" 1
  let branches : List Branch := [
    .branch ⟨4, 6⟩ (operation 4 8 .greater (ident 4 6 "x") (ident 4 10 "y"))
      (assignTo 4 "x" (operation 4 22 .sub (ident 4 22 "x") (ident 4 26 "y"))) false,
    .branch ⟨5, 6⟩ (operation 5 8 .greater (ident 5 6 "y") (ident 5 10 "x"))
      (assignTo 5 "y" (operation 5 22 .sub (ident 5 22 "y") (ident 5 26 "x"))) false,
    .branch ⟨6, 6⟩ (operation 6 8 .equal (ident 6 6 "x") (ident 6 10 "y"))
      (.write ⟨6, 17⟩ (ident 6 23 "x")) true]
  let body := listOf 3 3 [
    .read ⟨3, 3⟩ (ident 3 8 "x"),
    .read ⟨3, 11⟩ (ident 3 16 "y"),
    .doLoop ⟨4, 3⟩ (.branches branches)]
  return { name := "guarded", table, program := rootBlock [] 2 1 body }

/-- A procedure inside a procedure, a constant from outside, and a call of a name that
nothing declares. -/
def nested : Except Fault Sample := do
  let table ← ScopeTable.empty.defineConstant .root "limit" 3 1
  let table ← table.defineVariable .root "n" 2
  let (outer, table) ← table.defineProcedure .root "outer" 3
  let outerScope := (← table.procedure outer).localScope
  let (inner, table) ← table.defineProcedure outerScope "inner" 4
  let innerScope := (← table.procedure inner).localScope
  let innerBlock : Block := .block ⟨4, 21⟩ innerScope .noProcedures
    (.write ⟨4, 27⟩ (operation 4 33 .add
      (operation 4 34 .mul (ident 4 34 "limit") (number 4 42 2)) (number 4 47 1)))
  let loopBody := listOf 5 42 [
    .call ⟨5, 42⟩ "inner" none,
    assignTo 5 "n" (operation 5 61 .sub (ident 5 61 "n") (number 5 65 1))]
  let outerBlock : Block := .block ⟨4, 3⟩ outerScope
    (.procedures [⟨⟨4, 3⟩, "inner", inner, innerBlock⟩])
    (listOf 5 9 [
      assignTo 5 "n" (ident 5 14 "limit"),
      .whileLoop ⟨5, 21⟩ (operation 5 27 .greater (ident 5 27 "n") (number 5 31 0)) loopBody])
  let condition := operation 6 10 .greater
    (operation 6 10 .mul (number 6 10 2) (number 6 14 3)) (number 6 18 5)
  let body := listOf 6 7 [
    .ifThen ⟨6, 7⟩ condition (.call ⟨6, 25⟩ "outer" none),
    .call ⟨6, 37⟩ "missing" none]
  return { name := "nested", table, program :=
    rootBlock [⟨⟨3, 1⟩, "outer", outer, outerBlock⟩] 3 1 body }

/-- A program with an unusable statement and an unusable expression. -/
def broken : Except Fault Sample := do
  let table ← ScopeTable.empty.defineVariable .root "x" 1
  let negated : Expr := .unary ⟨2, 33⟩ .neg (operation 2 35 .sub (number 2 35 4) (number 2 39 6))
  let body := listOf 2 7 [
    .skip ⟨2, 7⟩,
    .error ⟨2, 13⟩,
    .write ⟨2, 26⟩ (ident 2 32 "x"),
    .assign (.single ⟨2, 35⟩ (ident 2 35 "x") negated),
    .whileLoop ⟨2, 50⟩ (.unary ⟨2, 56⟩ .odd (.error ⟨2, 60⟩)) (.skip ⟨2, 75⟩)]
  return { name := "broken", table, program := rootBlock [] 2 1 body }

/-- The names by which samples are chosen. -/
def names : List String := ["swap", "guarded", "nested", "broken"]

/-- The names as a message lists them. -/
def available : String := ", ".intercalate names

def build (name : String) : Except Fault Sample :=
  match name with
  | "swap" => swap
  | "guarded" => guarded
  | "nested" => nested
  | "broken" => broken
  | _ => .error (.compilation "sample selection" s!"Unknown sample '{name}'. Available: {available}")

end Sample

end PlZero
