import PlZero.CommandLine.Run

/-! The command line program. -/

namespace PlZero.CommandLine

/-- Runs a computation and measures it. -/
def timed {α : Type} (f : Unit → α) : IO (α × String) := do
  let start ← IO.monoNanosNow
  let result ← IO.lazyPure f
  let stop ← IO.monoNanosNow
  return (result, seconds (stop - start))

/-- The times that the passes take on the sample that the arguments name. -/
def measure (arguments : List String) : IO Elapsed := do
  match readArguments arguments with
  | .error _ => return ⟨seconds 0, seconds 0⟩
  | .ok o =>
    match Sample.build o.sample with
    | .error _ => return ⟨seconds 0, seconds 0⟩
    | .ok sample =>
      let ((program, _), resolution) ← timed fun _ => sample.program.resolveNames sample.table
      let (_, folding) ← timed fun _ => program.foldConstants.run 0
      return ⟨resolution, folding⟩

end PlZero.CommandLine

def main (arguments : List String) : IO UInt32 := do
  let elapsed ← PlZero.CommandLine.measure arguments
  let outcome := PlZero.CommandLine.run arguments elapsed
  IO.print outcome.output
  IO.eprint outcome.errors
  return outcome.exitCode
