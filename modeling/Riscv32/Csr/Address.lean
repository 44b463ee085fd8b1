import Riscv32.Error

/-!
# Addresses of control registers

The registers that have a name, and the rule by which an address itself says who may use it:
bits 9 and 8 hold the lowest privilege level, and ones in bits 11 and 10 mark a register that
cannot be written.
-/
namespace Riscv32.Csr

def fflags : Word := 0x001
def frm : Word := 0x002
def fcsr : Word := 0x003
def mstatus : Word := 0x300
def misa : Word := 0x301
def mie : Word := 0x304
def mtvec : Word := 0x305
def mtimecmp : Word := 0x321
def mtimecmph : Word := 0x322
def mscratch : Word := 0x340
def mepc : Word := 0x341
def mcause : Word := 0x342
def mtval : Word := 0x343
def mip : Word := 0x344
def halt : Word := 0x789
def mcycle : Word := 0xB00
def minstret : Word := 0xB02
def mcycleh : Word := 0xB80
def minstreth : Word := 0xB82
def cycle : Word := 0xC00
def time : Word := 0xC01
def instret : Word := 0xC02
def cycleh : Word := 0xC80
def timeh : Word := 0xC81
def instreth : Word := 0xC82
def mvendorid : Word := 0xF11
def marchid : Word := 0xF12
def mimpid : Word := 0xF13
def mhartid : Word := 0xF14

/-- The named registers. -/
def names : List (String × Word) :=
  [("fflags", fflags), ("frm", frm), ("fcsr", fcsr), ("mstatus", mstatus), ("misa", misa),
    ("mie", mie), ("mtvec", mtvec), ("mtimecmp", mtimecmp), ("mtimecmph", mtimecmph),
    ("mscratch", mscratch), ("mepc", mepc), ("mcause", mcause), ("mtval", mtval), ("mip", mip),
    ("halt", halt), ("mcycle", mcycle), ("minstret", minstret), ("mcycleh", mcycleh),
    ("minstreth", minstreth), ("cycle", cycle), ("time", time), ("instret", instret),
    ("cycleh", cycleh), ("timeh", timeh), ("instreth", instreth), ("mvendorid", mvendorid),
    ("marchid", marchid), ("mimpid", mimpid), ("mhartid", mhartid)]

/-- The address of a name. -/
def address? (name : String) : Option Word :=
  (names.find? fun (n, _) => n == name).map Prod.snd

/-- The name of an address. -/
def name? (addr : Word) : Option String :=
  (names.find? fun (_, a) => a == addr).map Prod.fst

/-- The lowest privilege level that may use the address. -/
def requiredLevel (addr : Word) : Word := (addr.extractLsb' 8 2).setWidth 32

/-- Whether the address marks a register that cannot be written. -/
def isReadOnly (addr : Word) : Bool := addr.extractLsb' 10 2 == 3

/-- Grants or refuses an access to an address; privilege is looked at first. -/
def checkAccess (addr : Word) (mode : Privilege) (write : Bool) : Except CsrError Unit :=
  if mode.level < requiredLevel addr then .error (.insufficientPrivilege addr mode)
  else if write && isReadOnly addr then .error (.readOnly addr)
  else .ok ()

/-- The value of `misa` after reset: 32-bit base with I, M, A, F, D and user mode. -/
def misaReset : Word := 0x40101129

/-- The timer bit of `mip` and `mie`. -/
def timerPending : Word := 1 <<< 7

end Riscv32.Csr
