import Riscv32.Hart.Step

/-!
# Simulator

A hart together with its dispatch table. The hart is launched at its first step or run, so that
its entry point and stack depend on every program loaded before.
-/
namespace Riscv32

/-- A hart that is launched on demand. -/
structure Simulator where
  table : DispatchTable
  hart : Hart
  launched : Bool := false

namespace Simulator

/-- A simulator of a hart with the given instruction sets. -/
def ofConfig (c : Config) (sets : List InstructionSet) : Except HartError Simulator := do
  let table ← DispatchTable.build sets
  return { table, hart := .ofConfig c }

/-- Launches the hart unless that was done before. -/
def ensureLaunched (s : Simulator) : Except HartError Unit × Simulator :=
  if s.launched then (.ok (), s)
  else
    match s.hart.launch none with
    | (.ok (), hart) => (.ok (), { s with hart, launched := true })
    | (.error e, hart) => (.error (.launchFailed e), { s with hart })

/-- One cycle of a launched hart. -/
def step (s : Simulator) : Except HartError Unit × Simulator :=
  match s.ensureLaunched with
  | (.error e, s) => (.error e, s)
  | (.ok (), s) =>
    match s.hart.step s.table with
    | .ok () hart => (.ok (), { s with hart })
    | .error e hart => (.error e, { s with hart })

/-- A run of a launched hart. -/
def run {m : Type → Type} [Monad m] (s : Simulator)
    (debug : DebuggerHandle → Word → Hart → m Hart) (fuel : Nat) :
    m (Hart.Outcome × Simulator) :=
  match s.ensureLaunched with
  | (.error e, s) => return (.failed e, s)
  | (.ok (), s) => do
    let (outcome, hart) ← s.hart.run s.table debug fuel
    return (outcome, { s with hart })

end Simulator
end Riscv32
