import PlZero.Sample

/-! Reading the argument list. Arguments are read from left to right, and what an argument
means is checked as late as possible: a sample name or a level is held back until the next
argument that is understood, or the end. So an argument that is not understood at all is
complained about before a bad value that stands to its left. -/

namespace PlZero.CommandLine

/-! ### Levels -/

inductive LevelFault where
  | empty
  | invalidDigit
  | tooLarge
  deriving DecidableEq, Repr

def LevelFault.message : LevelFault → String
  | empty => "cannot parse integer from empty string"
  | invalidDigit => "invalid digit found in string"
  | tooLarge => "number too large to fit in target type"

/-- Levels are unsigned 64-bit numbers. -/
def levelBound : Nat := UInt64.size

/-- Continues a number with further digits; the first character at fault decides. -/
def readDigits (value : Nat) : List Char → Except LevelFault Nat
  | [] => .ok value
  | c :: rest =>
    if c.isDigit then
      let value := 10 * value + (c.toNat - '0'.toNat)
      if value < levelBound then readDigits value rest else .error .tooLarge
    else .error .invalidDigit

/-- Decimal digits, with or without one plus sign before them. -/
def readLevel (text : String) : Except LevelFault UInt64 :=
  match text.toList with
  | [] => .error .empty
  | ['+'] => .error .invalidDigit
  | '+' :: rest => (readDigits 0 rest).map Nat.toUInt64
  | digits => (readDigits 0 digits).map Nat.toUInt64

/-! ### Options -/

inductive Flag where
  | resolve
  | optimize
  | count
  | verbose
  deriving DecidableEq, Repr

namespace Flag

def all : List Flag := [resolve, optimize, count, verbose]

def long : Flag → String
  | resolve => "resolve"
  | optimize => "optimize"
  | count => "count"
  | verbose => "verbose"

def short : Flag → Char
  | resolve => 'r'
  | optimize => 'O'
  | count => 'c'
  | verbose => 'v'

end Flag

/-- What the options ask for when all is well. -/
structure Options where
  sample : String
  level : UInt64 := 0
  flags : List Flag := []
  deriving DecidableEq, Repr

def Options.has (o : Options) (f : Flag) : Bool := o.flags.contains f

inductive UsageError where
  | unexpectedArgument (argument : String)
  | unexpectedValue (value option : String)
  | repeatedOption (option : String)
  | missingLevel
  | invalidLevel (text : String) (fault : LevelFault)
  | invalidSample (text : String)
  | missingSample
  deriving DecidableEq, Repr

/-- The level option as messages name it. -/
def levelOption : String := "--level <LEVEL>"

def UsageError.message : UsageError → String
  | unexpectedArgument argument => s!"error: unexpected argument '{argument}' found"
  | unexpectedValue value option =>
    s!"error: unexpected value '{value}' for '{option}' found; no more were expected"
  | repeatedOption option => s!"error: the argument '{option}' cannot be used multiple times"
  | missingLevel => s!"error: a value is required for '{levelOption}' but none was supplied"
  | invalidLevel text fault =>
    s!"error: invalid value '{text}' for '{levelOption}': {fault.message}"
  | invalidSample text =>
    s!"error: invalid value '{text}' for '<SAMPLE>': " ++
      s!"Unknown sample: {text}. Available: {Sample.available}"
  | missingSample => "error: the following required arguments were not provided:\n  <SAMPLE>"

/-- Why reading stops before the end. -/
inductive Stop where
  | usage (error : UsageError)
  | version
  | help
  deriving DecidableEq, Repr

/-! ### The reader -/

/-- A value that has not been looked at yet. -/
inductive Pending where
  | sample (text : String)
  /-- The level option, perhaps still without its value. -/
  | level (text : Option String)
  deriving DecidableEq, Repr

structure Reader where
  sample : Option String := none
  level : Option UInt64 := none
  flags : List Flag := []
  pending : Option Pending := none
  /-- There is only one place for an argument that is no option. -/
  sampleSeen : Bool := false
  /-- After a double dash nothing is an option any more. -/
  optionsEnded : Bool := false
  deriving DecidableEq, Repr

namespace Reader

def fail {α : Type} (error : UsageError) : Except Stop α := .error (.usage error)

def setLevel (r : Reader) (text : String) : Except Stop Reader :=
  if r.level.isSome then fail (.repeatedOption levelOption)
  else
    match readLevel text with
    | .ok level => .ok { r with level := some level }
    | .error fault => fail (.invalidLevel text fault)

/-- Looks at the value that was held back, if there is one. -/
def settle (r : Reader) : Except Stop Reader :=
  let settled := { r with pending := none }
  match r.pending with
  | none => .ok settled
  | some (.sample text) =>
    if Sample.names.contains text then .ok { settled with sample := some text }
    else fail (.invalidSample text)
  | some (.level none) => fail .missingLevel
  | some (.level (some text)) => settled.setLevel text

def setFlag (r : Reader) (f : Flag) : Except Stop Reader := do
  let r ← r.settle
  if r.flags.contains f then fail (.repeatedOption ("--" ++ f.long))
  else return { r with flags := r.flags ++ [f] }

/-- The level option, with a value attached to it or with the next argument for one. -/
def levelGiven (r : Reader) (attached : Option String) : Except Stop Reader := do
  let r ← r.settle
  match attached with
  | some text => r.setLevel text
  | none => return { r with pending := some (.level none) }

def stop (r : Reader) (why : Stop) : Except Stop Reader := do
  let _ ← r.settle
  .error why

/-- An option spelled out, with what follows its equals sign. -/
def long (r : Reader) (name : String) (attached : Option String) : Except Stop Reader :=
  let plain (given : Except Stop Reader) : Except Stop Reader :=
    match attached with
    | none => given
    | some value => fail (.unexpectedValue value ("--" ++ name))
  match Flag.all.find? (·.long == name) with
  | some f => plain (r.setFlag f)
  | none =>
    match name with
    | "level" => r.levelGiven attached
    | "version" => plain (r.stop .version)
    | "help" => plain (r.stop .help)
    | _ => fail (.unexpectedArgument ("--" ++ name))

/-- Option letters in one argument. What follows the letter of the level option is its
value, one equals sign aside. -/
def shorts (r : Reader) : List Char → Except Stop Reader
  | [] => .ok r
  | c :: rest =>
    match Flag.all.find? (·.short == c) with
    | some f => do (← r.setFlag f).shorts rest
    | none =>
      match c, rest with
      | 'l', [] => r.levelGiven none
      | 'l', '=' :: value => r.levelGiven (some (String.ofList value))
      | 'l', value => r.levelGiven (some (String.ofList value))
      | 'V', _ => r.stop .version
      | 'h', _ => r.stop .help
      | _, _ => fail (.unexpectedArgument (String.ofList ['-', c]))

/-- An argument that is no option. -/
def positional (r : Reader) (argument : String) : Except Stop Reader :=
  if r.sampleSeen then fail (.unexpectedArgument argument)
  else do
    let r ← r.settle
    return { r with pending := some (.sample argument), sampleSeen := true }

/-- An option's name and what follows the first equals sign. -/
def splitAttached (text : List Char) : String × Option String :=
  match text.span (· != '=') with
  | (name, []) => (String.ofList name, none)
  | (name, _ :: value) => (String.ofList name, some (String.ofList value))

def next (r : Reader) (argument : String) : Except Stop Reader :=
  if r.optionsEnded then r.positional argument
  else
    match argument.toList with
    | ['-', '-'] => .ok { r with optionsEnded := true }
    | '-' :: '-' :: text => let (name, attached) := splitAttached text; r.long name attached
    | '-' :: c :: rest => r.shorts (c :: rest)
    | _ =>
      match r.pending with
      | some (.level none) => .ok { r with pending := some (.level (some argument)) }
      | _ => r.positional argument

def finish (r : Reader) : Except Stop Options := do
  let r ← r.settle
  match r.sample with
  | some sample => return { sample, level := r.level.getD 0, flags := r.flags }
  | none => fail .missingSample

end Reader

/-- The options that an argument list stands for. -/
def readArguments (arguments : List String) : Except Stop Options := do
  (← arguments.foldlM Reader.next {}).finish

end PlZero.CommandLine
