import Deferral.Run.Report
import Deferral.Stored.Record

/-!
# Stored options and statistics

Options may be given in part: a field that does not come is that of the unbounded options.
Statistics must be given in full.
-/

namespace Deferral

namespace RunOptions

/-- The fields of options that have come. -/
structure Given where
  stepLimit : Option (Option UInt64) := none
  stackCapacity : Option UInt64 := none

/-- The fields of the options. Each of them may be left out, and then it has its default. -/
def record : Stored.Record Given RunOptions where
  name := "RunOptions"
  fields := [
    { name := "step_limit"
      isSet := fun given => given.stepLimit.isSome
      read := do
        let limit ← Stored.Read.option (Stored.Read.unsigned "u64")
        return fun given => { given with stepLimit := some limit } },
    { name := "stack_capacity"
      isSet := fun given => given.stackCapacity.isSome
      read := do
        let capacity ← Stored.Read.unsigned "usize"
        return fun given => { given with stackCapacity := some capacity } }]
  start := {}
  complete given := .ok {
    stepLimit := given.stepLimit.getD unbounded.stepLimit
    stackCapacity := given.stackCapacity.getD unbounded.stackCapacity }

instance : Stored RunOptions where
  read := record.read
  toJson options := .object [
    ("step_limit", (options.stepLimit.map fun limit => .number (.natural limit)).getD .null),
    ("stack_capacity", .number (.natural options.stackCapacity))]

instance : Text.Show RunOptions where
  shown options := .record "RunOptions" [
    ("step_limit", Text.Show.shown options.stepLimit),
    ("stack_capacity", Text.Show.shown options.stackCapacity)] true

end RunOptions

namespace RunStats

/-- The fields of statistics that have come. -/
structure Given where
  steps : Option Nat := none
  peakStackDepth : Option Nat := none

/-- The fields of the statistics. None of them may be left out. -/
def record : Stored.Record Given RunStats where
  name := "RunStats"
  fields := [
    { name := "steps"
      isSet := fun given => given.steps.isSome
      read := do
        let steps ← Stored.Read.unsigned "u64"
        return fun given => { given with steps := some steps.toNat } },
    { name := "peak_stack_depth"
      isSet := fun given => given.peakStackDepth.isSome
      read := do
        let peak ← Stored.Read.unsigned "usize"
        return fun given => { given with peakStackDepth := some peak.toNat } }]
  start := {}
  complete given := do
    let some steps := given.steps | .error "steps"
    let some peakStackDepth := given.peakStackDepth | .error "peak_stack_depth"
    return { steps, peakStackDepth }

instance : Stored RunStats where
  read := record.read
  toJson stats := .object [
    ("steps", .number (.natural (.ofNat stats.steps))),
    ("peak_stack_depth", .number (.natural (.ofNat stats.peakStackDepth)))]

instance : Text.Show RunStats where
  shown stats := .record "RunStats" [
    ("steps", Text.Show.shown stats.steps),
    ("peak_stack_depth", Text.Show.shown stats.peakStackDepth)] true

end RunStats

end Deferral
