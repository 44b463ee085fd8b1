import Riscv32.Config.Read
import Riscv32.Hart.Simulator
import Riscv32.Proofs.Hart.Confinement
import Riscv32.Proofs.Hart.Executable
import Riscv32.Proofs.Hart.Fault
import Riscv32.Proofs.Hart.Ledger
import Riscv32.Proofs.Hart.Permission
import Riscv32.Proofs.Hart.Reservation
import Riscv32.Proofs.Hart.Secrecy
import Riscv32.Proofs.Hart.Survival
import Riscv32.Proofs.Hart.Timer
import Riscv32.Proofs.Instruction.RoundTrip
import Riscv32.Proofs.Instruction.Written
import Riscv32.Proofs.Memory.Empty
import Riscv32.Proofs.Memory.Flat
import Riscv32.Proofs.Memory.Loading
import Riscv32.Proofs.Memory.Room
import Riscv32.Proofs.Memory.Origin
import Riscv32.Proofs.Memory.Symbol
import Riscv32.Proofs.Hart.Budget
import Riscv32.Proofs.Hart.Conformance
import Riscv32.Proofs.Memory.Relocation
import Riscv32.Proofs.Memory.Allocation
import Riscv32.Proofs.Hart.Launch
import Riscv32.Proofs.Hart.Wait
import Riscv32.Proofs.Csr.View
import Riscv32.Proofs.Float.Double
import Riscv32.Proofs.Hart.Exchange
import Riscv32.Proofs.Hart.AtomicFault
import Riscv32.Proofs.Hart.LoadStore
import Riscv32.Proofs.Hart.AtomicUpdate
import Riscv32.Proofs.Hart.Multiplication
import Riscv32.Proofs.Hart.FloatUnit
import Riscv32.Proofs.Register.Name
import Riscv32.Proofs.Instruction.Text
import Riscv32.Proofs.Memory.Translation
