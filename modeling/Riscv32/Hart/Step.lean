import Riscv32.Hart.Dispatch

/-!
# Stepping a hart

A step is one cycle: a privileged hart first polls its timer and takes a pending trap, a
waiting hart then goes on waiting until an interrupt is pending, and any other hart fetches an
instruction and executes it. A failure becomes a pending trap of a privileged hart, whose
program counter goes back to the failing instruction; it halts any other hart. A run repeats
steps until the hart halts or fails, and lets the debugger have the hart where it asks for it.
-/
namespace Riscv32.Hart

/-- Raises the timer interrupt if the timer fires. -/
def pollTimer (h : Hart) : Hart :=
  if h.timer.fires h.clock.now then
    { h with
      timer := h.timer.poll h.clock.now
      csrs := h.csrs.setRaw Csr.mip (h.csrs.raw Csr.mip ||| Csr.timerPending) }.raise
        .machineTimerInterrupt
  else h

/-- The address of the handler of a trap. In vectored mode every cause has its own. -/
def trapVector (h : Hart) (t : Trap) : Word :=
  let mtvec := h.csrs.raw Csr.mtvec
  let base := mtvec &&& ~~~3
  if mtvec &&& 3 = 1 then base + BitVec.ofNat 32 (4 * t.code) else base

/-- The control registers after a trap was taken. -/
def csrsInTrap (h : Hart) (t : Trap) : Csr.Store :=
  let csrs := ((h.csrs.setMstatusField .mpie (h.csrs.mstatusField .mie)).setMstatusField
    .mpp h.privilege.level).setMstatusField .mie 0
  let csrs := ((csrs.setRaw Csr.mepc h.pc).setRaw Csr.mcause t.mcause).setRaw Csr.mtval t.tval
  if t = .machineTimerInterrupt then
    csrs.setRaw Csr.mip (csrs.raw Csr.mip &&& ~~~Csr.timerPending)
  else csrs

/-- Takes a trap: saves where the hart was, and jumps to the handler. -/
def enterTrap (h : Hart) (e : TrapEvent) : Hart :=
  { h with
    csrs := h.csrsInTrap e.trap
    privilege := e.target
    reservation := none
    waiting := false
    pc := h.trapVector e.trap }

/-- Delivers the pending trap whose turn it is, if there is one. -/
def deliverTrap (h : Hart) : Option TrapEvent × Hart :=
  match h.traps.pop? (h.csrs.mstatusField .mie != 0) with
  | none => (none, h)
  | some (e, traps) => (some e, { h with traps }.enterTrap e)

/-- What stands for the instruction in a report if it could not be fetched. -/
def unfetched : String := "<fetch failed>"

/-- The consequence of a failure. -/
def fail (h : Hart) (inst : Option Instruction) (e : ExecError) :
    EStateM.Result HartError Hart Unit :=
  match e with
  | .unimplemented mnemonic => .error (.unimplemented mnemonic h.instructionPc) h
  | .debuggerRequested => .error (.debuggerRequested h.instructionPc) h
  | e =>
    let encoding := (inst.bind (·.encoding?)).getD 0
    match h.privileged, e.trap? encoding with
    | true, some t => .ok () ({ h with pc := h.instructionPc }.raise t)
    | _, _ =>
      let text := (inst.map (·.text)).getD unfetched
      .error (.fault ⟨h.instructionPc, text, e⟩) (h.halt 1)

/-- Executes a fetched instruction. -/
def execute (table : DispatchTable) (h : Hart) (inst : Instruction) :
    EStateM.Result HartError Hart Unit :=
  match table.handler? inst.mnemonic with
  | none => .error (.unknownMnemonic inst.mnemonic h.instructionPc) (h.halt 1)
  | some handler =>
    match handler inst h with
    | .ok () h => .ok () { h with instret := h.instret + 1 }
    | .error e h => h.fail (some inst) e

/-- Fetches the next instruction and executes it. -/
def fetchExecute (table : DispatchTable) (h : Hart) : EStateM.Result HartError Hart Unit :=
  let h := { h with cycle := h.cycle + 1, instructionPc := h.pc }
  match AddressSpace.fetch h.pc h.memory with
  | .error e memory => { h with memory }.fail none (.memory e)
  | .ok inst memory => { h with memory, pc := h.pc + 4 }.execute table inst

/-- The hart at the start of a step, after the timer and a pending trap. -/
def atBoundary (h : Hart) : Hart :=
  if h.privileged then h.pollTimer.deliverTrap.2 else h

/-- Whether the hart has used up its cycles. -/
def spent (h : Hart) : Option Counter :=
  h.maxCycles.filter fun limit => decide (limit ≤ h.cycle)

/-- One cycle; a halted hart does nothing. -/
def step (table : DispatchTable) (h : Hart) : EStateM.Result HartError Hart Unit :=
  if h.halted then .ok () h
  else
    match h.spent with
    | some limit => .error (.cycleLimit limit h.pc) h
    | none =>
      let h := h.atBoundary
      if h.waiting && !h.traps.hasInterrupt then .ok () { h with cycle := h.cycle + 1 }
      else { h with waiting := false }.fetchExecute table

/-- How a run ends. -/
inductive Outcome
  /-- The hart halted. -/
  | exited (code : Word)
  /-- A step failed. -/
  | failed (e : HartError)
  /-- The hart asks for its debugger. -/
  | stopped (pc : Word)
  /-- The steps allotted did not suffice. -/
  | unfinished
  deriving DecidableEq

/-- Steps until the hart halts, fails or asks for its debugger, at most `fuel` times. -/
def runToStop (table : DispatchTable) : Nat → Hart → Outcome × Hart
  | 0, h => if h.halted then (.exited (h.exitCode.getD 0), h) else (.unfinished, h)
  | fuel + 1, h =>
    if h.halted then (.exited (h.exitCode.getD 0), h)
    else
      match h.step table with
      | .ok () h => runToStop table fuel h
      | .error (.debuggerRequested pc) h => (.stopped pc, h)
      | .error e h => (.failed e, h)

/-- Runs until the hart halts or fails. Where it asks for its debugger, the debugger is
detached, gets the hart and the address of the breakpoint, and is attached again afterwards. -/
def run {m : Type → Type} [Monad m] (table : DispatchTable)
    (debug : DebuggerHandle → Word → Hart → m Hart) : Nat → Hart → m (Outcome × Hart)
  | 0, h => return (.unfinished, h)
  | fuel + 1, h =>
    match h.runToStop table (fuel + 1) with
    | (.stopped pc, h) =>
      match h.debugger with
      | none => run table debug fuel h
      | some handle => do
        let h ← debug handle pc { h with debugger := none }
        run table debug fuel { h with debugger := some handle }
    | result => return result

end Riscv32.Hart
