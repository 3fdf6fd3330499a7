import PlZero.Tree.Basic

/-! The text of a tree. The level given to `render` is the indentation of the lines that
follow the first one; the first line is not indented, since it may stand after something.
`render` is the text for any number as the level. A program has words for levels and texts of
bounded size, and it asks for room before it begins a line, so `render?` may have no text to
give; memory itself is taken to be without bound. -/

namespace PlZero

/-- Spaces of one indentation level. -/
def indentWidth : Nat := 2

def indentUnit : String := "  "

/-- A line break, then the indentation of the level. -/
def newLine (level : Nat) : String := "\n" ++ String.join (List.replicate level indentUnit)

/-! ### Levels as words -/

/-- What a build does when a word is counted past the last one: with overflow checks it panics,
without them it starts again at zero. -/
inductive Overflow where
  | panics
  | wraps
  deriving DecidableEq, Repr

/-- The next deeper level; `none` is a panic. -/
def Overflow.next? : Overflow → UInt64 → Option UInt64
  | panics, level => if level.toNat + 1 < UInt64.size then some (level + 1) else none
  | wraps, level => some (level + 1)

/-- No text has more bytes than this, or can be asked more room for. -/
def maxCapacity : Nat := UInt64.size / 2 - 1

/-- A text as a program puts it together; `none` is a panic, since it has no room. -/
def held? (text : String) : Option String :=
  if text.utf8ByteSize ≤ maxCapacity then some text else none

/-- A line break as a program makes it: it asks for all the room first. -/
def newLine? (level : UInt64) : Option String :=
  if 1 + level.toNat * indentWidth ≤ maxCapacity then some (newLine level.toNat) else none

namespace Tree

/-- The text that stands for an unusable statement. -/
def errorMark : String := "ERROR"

def skipWord : String := "SKIP"

def exitWord : String := "EXIT"

/-- Statements of a sequence are separated; procedures and branches each begin a line. -/
def render : {c : Category} → Tree c → Nat → String
  | _, error _, _ => errorMark
  | _, skip _, _ => skipWord
  | _, assign a, _ => a.text
  | _, read _ target, _ => "READ " ++ target.text
  | _, write _ value, _ => "WRITE " ++ value.text
  | _, call _ name _, _ => "CALL " ++ name
  | _, list _ ss, level => ss.render level
  | _, conditional _ condition yes no, level =>
    "IF " ++ condition.text ++ " THEN" ++ newLine (level + 1) ++ yes.render (level + 1) ++
      newLine level ++ "ELSE" ++ newLine (level + 1) ++ no.render (level + 1)
  | _, whileLoop _ condition body, level =>
    "WHILE " ++ condition.text ++ " DO" ++ newLine (level + 1) ++ body.render (level + 1)
  | _, doLoop _ bs, level => "DO" ++ bs.render (level + 1) ++ newLine level ++ "OD"
  | _, ofBlock b, level => b.render level
  | _, ofBranch b, level => b.render level
  | _, nil, _ => ""
  | _, cons s nil, level => s.render level
  | _, cons s rest, level => s.render level ++ ";" ++ newLine level ++ rest.render level
  | _, block _ _ ps body, level =>
    ps.render (level + 1) ++ newLine level ++ "BEGIN" ++ newLine (level + 1) ++
      body.render (level + 1) ++ newLine level ++ "END"
  | _, noProcedures, _ => ""
  | _, procedure _ name _ body rest, level =>
    newLine level ++ "PROCEDURE " ++ name ++ " =" ++ body.render (level + 1) ++ rest.render level
  | _, branch _ condition body exit, level =>
    condition.text ++ " THEN " ++ body.render level ++ (if exit then " " ++ exitWord else "")
  | _, noBranches, _ => ""
  | _, orBranch b rest, level => newLine level ++ b.render level ++ rest.render level

/-- Renders with words for levels; `none` is a panic. -/
def render? (overflow : Overflow) : {c : Category} → Tree c → UInt64 → Option String
  | _, error _, _ => return errorMark
  | _, skip _, _ => return skipWord
  | _, assign a, _ => held? a.text
  | _, read _ target, _ => held? ("READ " ++ target.text)
  | _, write _ value, _ => held? ("WRITE " ++ value.text)
  | _, call _ name _, _ => held? ("CALL " ++ name)
  | _, list _ ss, level => do
    -- the separator is made before it is known whether there is anything to separate
    let _ ← newLine? level
    ss.render? overflow level
  | _, conditional _ condition yes no, level => do
    let deeper ← overflow.next? level
    held? ("IF " ++ condition.text ++ " THEN" ++ (← newLine? deeper) ++
      (← yes.render? overflow deeper) ++ (← newLine? level) ++ "ELSE" ++ (← newLine? deeper) ++
      (← no.render? overflow deeper))
  | _, whileLoop _ condition body, level => do
    let deeper ← overflow.next? level
    held? ("WHILE " ++ condition.text ++ " DO" ++ (← newLine? deeper) ++
      (← body.render? overflow deeper))
  | _, doLoop _ bs, level => do
    let deeper ← overflow.next? level
    held? ("DO" ++ (← bs.render? overflow deeper) ++ (← newLine? level) ++ "OD")
  | _, ofBlock b, level => b.render? overflow level
  | _, ofBranch b, level => b.render? overflow level
  | _, nil, _ => return ""
  | _, cons s nil, level => s.render? overflow level
  | _, cons s rest, level => do
    held? ((← s.render? overflow level) ++ ";" ++ (← newLine? level) ++
      (← rest.render? overflow level))
  | _, block _ _ ps body, level => do
    let deeper ← overflow.next? level
    held? ((← ps.render? overflow deeper) ++ (← newLine? level) ++ "BEGIN" ++
      (← newLine? deeper) ++ (← body.render? overflow deeper) ++ (← newLine? level) ++ "END")
  | _, noProcedures, _ => return ""
  | _, procedure _ name _ body rest, level => do
    let deeper ← overflow.next? level
    held? ((← newLine? level) ++ "PROCEDURE " ++ name ++ " =" ++
      (← body.render? overflow deeper) ++ (← rest.render? overflow level))
  | _, branch _ condition body exit, level => do
    held? (condition.text ++ " THEN " ++ (← body.render? overflow level) ++
      (if exit then " " ++ exitWord else ""))
  | _, noBranches, _ => return ""
  | _, orBranch b rest, level => do
    held? ((← newLine? level) ++ (← b.render? overflow level) ++ (← rest.render? overflow level))

/-- The text of one declaration. -/
def Declaration.render (d : Declaration) (level : Nat) : String :=
  (procedure d.loc d.name d.entry d.body noProcedures).render level

end Tree

end PlZero
