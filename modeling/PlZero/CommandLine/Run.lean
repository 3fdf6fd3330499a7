import PlZero.CommandLine.Arguments
import PlZero.Resolver
import PlZero.Tree.Traversal
import PlZero.Tree.Render
import PlZero.Tree.Tally

/-! What the command line program prints. Everything but the time that the passes take is
a function of the arguments; the times are given to it as text. -/

namespace PlZero.CommandLine

def programName : String := "pl0tree"

def version : String := "0.1.0"

/-- How long the passes took, in seconds. -/
structure Elapsed where
  resolution : String
  folding : String

structure Outcome where
  exitCode : UInt32
  output : String
  errors : String
  deriving DecidableEq, Repr

/-- Why a run ends before its time. -/
inductive Failure where
  | fault (fault : Fault)
  /-- The program cannot go on, since a text has no room. -/
  | panic
  deriving DecidableEq, Repr

/-- A run with its output so far. Output before a failure is kept. -/
abbrev Session := EStateM Failure String

def say (text : String) : Session Unit := modify (· ++ text ++ "\n")

/-- Builds the sample, runs the passes that were asked for and shows the tree; the result
is the diagnostics of name resolution. -/
def session (o : Options) (elapsed : Elapsed) (overflow : Overflow) : Session (List Fault) := do
  let sample ← match Sample.build o.sample with
    | .ok sample => pure sample
    | .error fault => throw (.fault fault)
  if o.has .verbose then
    say (s!"Built sample '{sample.name}' ({sample.table.scopeCount} scope(s), " ++
      s!"{sample.table.procedureCount} procedure(s))")
  let (program, diagnostics) ←
    if o.has .resolve then
      match sample.program.resolveNames sample.table with
      | (program, .ok diagnostics) =>
        if o.has .verbose then
          say (s!"Name resolution completed in {elapsed.resolution}s " ++
            s!"with {diagnostics.length} diagnostic(s)")
        pure (program, diagnostics)
      | (_, .error fault) => throw (.fault fault)
    else pure (sample.program, [])
  let program ←
    if o.has .optimize then
      let (program, changed) := program.foldConstants.run 0
      if o.has .verbose then
        say s!"Constant folding completed in {elapsed.folding}s, {changed} slot(s) rewritten"
      pure program
    else pure program
  match program.render? overflow o.level with
  | some text => say text
  | none => throw .panic
  if o.has .count then
    let tally := program.tally {}
    say s!"\nStatements executed: {tally.executed}"
    say s!"Error statements:    {tally.errors}"
  return diagnostics

/-- The exit code of a program that panics. -/
def panicCode : UInt32 := 101

/-- Runs with options that are in order. Any diagnostic makes the run fail at its end. What is
said about a panic is not the program's and is left out. -/
def execute (o : Options) (elapsed : Elapsed) (overflow : Overflow) : Outcome :=
  match session o elapsed overflow "" with
  | .ok [] output =>
    let done := if o.has .verbose then "Done.\n" else ""
    { exitCode := 0, output := output ++ done, errors := "" }
  | .ok diagnostics output =>
    let listed := String.join (diagnostics.map fun d => d.message ++ "\n")
    let errors := listed ++ s!"Error: {diagnostics.length} unresolved name(s)\n"
    { exitCode := 1, output, errors }
  | .error (.fault fault) output =>
    { exitCode := 1, output, errors := s!"Error: Tree construction failed: {fault.message}\n" }
  | .error .panic output => { exitCode := panicCode, output, errors := "" }

/-- Control characters in an argument are not repeated in a message, blanks and line
breaks apart. -/
def isPrintable (c : Char) : Bool :=
  (c.toNat ≥ 0x20 && c.toNat != 0x7f) || c == '\t' || c == '\n' || c == '\x0c' || c == '\r'

def printable (text : String) : String := String.ofList (text.toList.filter isPrintable)

def helpText : String := "\n".intercalate [
  "Builds and inspects PL/0 statement trees",
  "",
  s!"Usage: {programName} [OPTIONS] <SAMPLE>",
  "",
  "Arguments:",
  "  <SAMPLE>  ",
  "",
  "Options:",
  "  -l, --level <LEVEL>  [default: 0]",
  "  -r, --resolve        ",
  "  -O, --optimize       ",
  "  -c, --count          ",
  "  -v, --verbose        ",
  "  -h, --help           Print help",
  "  -V, --version        Print version",
  ""]

/-- The whole program on an argument list, in a build with overflow checks unless another one is
asked for. -/
def run (arguments : List String) (elapsed : Elapsed) (overflow : Overflow := .panics) : Outcome :=
  match readArguments arguments with
  | .ok o => execute o elapsed overflow
  | .error .version => { exitCode := 0, output := s!"{programName} {version}\n", errors := "" }
  | .error .help => { exitCode := 0, output := helpText, errors := "" }
  | .error (.usage error) => { exitCode := 2, output := "", errors := printable error.message ++ "\n" }

/-- A time in seconds, to three places. -/
def seconds (nanoseconds : Nat) : String :=
  let milliseconds := (nanoseconds + 500000) / 1000000
  let places := toString (milliseconds % 1000)
  s!"{milliseconds / 1000}." ++ String.ofList (List.replicate (3 - places.length) '0') ++ places

end PlZero.CommandLine
