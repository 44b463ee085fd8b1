import Riscv32.Instruction.Encoding

/-!
# The opcode tables

One list of rows for each instruction set: base integer, multiplication, atomic, single and
double precision, control registers, and the fixed words of the privileged architecture. No
word belongs to two rows.
-/
namespace Riscv32.Encoding

/-- A row picked by opcode and minor opcode. -/
def minor (mnemonic : String) (opcode : BitVec 5) (f3 : BitVec 3) (format : Format)
    (floatMask : Nat := 0) : Encoding :=
  ⟨mnemonic, opcode, some f3, .none, format, floatMask⟩

/-- A row picked by opcode, minor opcode and the upper seven bits. -/
def upper (mnemonic : String) (opcode : BitVec 5) (f3 : BitVec 3) (f7 : BitVec 7)
    (format : Format) : Encoding :=
  ⟨mnemonic, opcode, some f3, .funct7 f7, format, 0⟩

/-- The base integer instructions. -/
def integer : List Encoding :=
  [⟨"lui", 0b01101, none, .none, .u, 0⟩,
    ⟨"auipc", 0b00101, none, .none, .u, 0⟩,
    ⟨"jal", 0b11011, none, .none, .j, 0⟩,
    minor "jalr" 0b11001 0b000 .i,
    minor "beq" 0b11000 0b000 .b,
    minor "bne" 0b11000 0b001 .b,
    minor "blt" 0b11000 0b100 .b,
    minor "bge" 0b11000 0b101 .b,
    minor "bltu" 0b11000 0b110 .b,
    minor "bgeu" 0b11000 0b111 .b,
    minor "lb" 0b00000 0b000 .load,
    minor "lh" 0b00000 0b001 .load,
    minor "lw" 0b00000 0b010 .load,
    minor "lbu" 0b00000 0b100 .load,
    minor "lhu" 0b00000 0b101 .load,
    minor "sb" 0b01000 0b000 .s,
    minor "sh" 0b01000 0b001 .s,
    minor "sw" 0b01000 0b010 .s,
    minor "addi" 0b00100 0b000 .i,
    minor "slti" 0b00100 0b010 .i,
    minor "sltiu" 0b00100 0b011 .i,
    minor "xori" 0b00100 0b100 .i,
    minor "ori" 0b00100 0b110 .i,
    minor "andi" 0b00100 0b111 .i,
    upper "slli" 0b00100 0b001 0b0000000 .shift,
    upper "srli" 0b00100 0b101 0b0000000 .shift,
    upper "srai" 0b00100 0b101 0b0100000 .shift,
    upper "add" 0b01100 0b000 0b0000000 .r,
    upper "sub" 0b01100 0b000 0b0100000 .r,
    upper "sll" 0b01100 0b001 0b0000000 .r,
    upper "slt" 0b01100 0b010 0b0000000 .r,
    upper "sltu" 0b01100 0b011 0b0000000 .r,
    upper "xor" 0b01100 0b100 0b0000000 .r,
    upper "srl" 0b01100 0b101 0b0000000 .r,
    upper "sra" 0b01100 0b101 0b0100000 .r,
    upper "or" 0b01100 0b110 0b0000000 .r,
    upper "and" 0b01100 0b111 0b0000000 .r,
    minor "fence" 0b00011 0b000 .fence,
    minor "fence.i" 0b00011 0b001 .fence]

/-- The multiplication and division instructions. -/
def multiplication : List Encoding :=
  [upper "mul" 0b01100 0b000 0b0000001 .r,
    upper "mulh" 0b01100 0b001 0b0000001 .r,
    upper "mulhsu" 0b01100 0b010 0b0000001 .r,
    upper "mulhu" 0b01100 0b011 0b0000001 .r,
    upper "div" 0b01100 0b100 0b0000001 .r,
    upper "divu" 0b01100 0b101 0b0000001 .r,
    upper "rem" 0b01100 0b110 0b0000001 .r,
    upper "remu" 0b01100 0b111 0b0000001 .r]

/-- A row of the atomic instructions. -/
def atomicRow (mnemonic : String) (f5 : BitVec 5) : Encoding :=
  ⟨mnemonic, 0b01011, some 0b010, .funct5 f5, .amo, 0⟩

/-- The atomic instructions; their ordering bits are ignored. -/
def atomic : List Encoding :=
  [⟨"lr.w", 0b01011, some 0b010, .funct5Rs2 0b00010 0, .lr, 0⟩,
    atomicRow "sc.w" 0b00011,
    atomicRow "amoswap.w" 0b00001,
    atomicRow "amoadd.w" 0b00000,
    atomicRow "amoxor.w" 0b00100,
    atomicRow "amoand.w" 0b01100,
    atomicRow "amoor.w" 0b01000,
    atomicRow "amomin.w" 0b10000,
    atomicRow "amomax.w" 0b10100,
    atomicRow "amominu.w" 0b11000,
    atomicRow "amomaxu.w" 0b11100]

/-- A fused multiply-add of the given format. -/
def fused (mnemonic : String) (opcode : BitVec 5) (format : BitVec 2) : Encoding :=
  ⟨mnemonic, opcode, none, .fmt format, .r4, 0b1111⟩

/-- Floating-point arithmetic with a rounding mode. -/
def rounded (mnemonic : String) (f7 : BitVec 7) : Encoding :=
  ⟨mnemonic, 0b10100, none, .funct7 f7, .r, 0b0111⟩

/-- A floating-point instruction of one source with a rounding mode. -/
def roundedUnary (mnemonic : String) (f7 : BitVec 7) (rs2 : BitVec 5) (floatMask : Nat) :
    Encoding :=
  ⟨mnemonic, 0b10100, none, .funct7Rs2 f7 rs2, .rUnary, floatMask⟩

/-- A floating-point instruction of two sources without a rounding mode. -/
def unrounded (mnemonic : String) (f3 : BitVec 3) (f7 : BitVec 7) (floatMask : Nat) :
    Encoding :=
  ⟨mnemonic, 0b10100, some f3, .funct7 f7, .r, floatMask⟩

/-- A floating-point instruction of one source without a rounding mode. -/
def unroundedUnary (mnemonic : String) (f3 : BitVec 3) (f7 : BitVec 7) (floatMask : Nat) :
    Encoding :=
  ⟨mnemonic, 0b10100, some f3, .funct7Rs2 f7 0, .rUnary, floatMask⟩

/-- The single-precision instructions. -/
def singlePrecision : List Encoding :=
  [minor "flw" 0b00001 0b010 .load 0b0001,
    minor "fsw" 0b01001 0b010 .s 0b0001,
    fused "fmadd.s" 0b10000 0b00,
    fused "fmsub.s" 0b10001 0b00,
    fused "fnmsub.s" 0b10010 0b00,
    fused "fnmadd.s" 0b10011 0b00,
    rounded "fadd.s" 0b0000000,
    rounded "fsub.s" 0b0000100,
    rounded "fmul.s" 0b0001000,
    rounded "fdiv.s" 0b0001100,
    roundedUnary "fsqrt.s" 0b0101100 0 0b0011,
    unrounded "fsgnj.s" 0b000 0b0010000 0b0111,
    unrounded "fsgnjn.s" 0b001 0b0010000 0b0111,
    unrounded "fsgnjx.s" 0b010 0b0010000 0b0111,
    unrounded "fmin.s" 0b000 0b0010100 0b0111,
    unrounded "fmax.s" 0b001 0b0010100 0b0111,
    roundedUnary "fcvt.w.s" 0b1100000 0 0b0010,
    roundedUnary "fcvt.wu.s" 0b1100000 1 0b0010,
    unroundedUnary "fmv.x.w" 0b000 0b1110000 0b0010,
    unroundedUnary "fclass.s" 0b001 0b1110000 0b0010,
    unrounded "feq.s" 0b010 0b1010000 0b0110,
    unrounded "flt.s" 0b001 0b1010000 0b0110,
    unrounded "fle.s" 0b000 0b1010000 0b0110,
    roundedUnary "fcvt.s.w" 0b1101000 0 0b0001,
    roundedUnary "fcvt.s.wu" 0b1101000 1 0b0001,
    unroundedUnary "fmv.w.x" 0b000 0b1111000 0b0001]

/-- The double-precision instructions. -/
def doublePrecision : List Encoding :=
  [minor "fld" 0b00001 0b011 .load 0b0001,
    minor "fsd" 0b01001 0b011 .s 0b0001,
    fused "fmadd.d" 0b10000 0b01,
    fused "fmsub.d" 0b10001 0b01,
    fused "fnmsub.d" 0b10010 0b01,
    fused "fnmadd.d" 0b10011 0b01,
    rounded "fadd.d" 0b0000001,
    rounded "fsub.d" 0b0000101,
    rounded "fmul.d" 0b0001001,
    rounded "fdiv.d" 0b0001101,
    roundedUnary "fsqrt.d" 0b0101101 0 0b0011,
    unrounded "fsgnj.d" 0b000 0b0010001 0b0111,
    unrounded "fsgnjn.d" 0b001 0b0010001 0b0111,
    unrounded "fsgnjx.d" 0b010 0b0010001 0b0111,
    unrounded "fmin.d" 0b000 0b0010101 0b0111,
    unrounded "fmax.d" 0b001 0b0010101 0b0111,
    roundedUnary "fcvt.s.d" 0b0100000 1 0b0011,
    roundedUnary "fcvt.d.s" 0b0100001 0 0b0011,
    unrounded "feq.d" 0b010 0b1010001 0b0110,
    unrounded "flt.d" 0b001 0b1010001 0b0110,
    unrounded "fle.d" 0b000 0b1010001 0b0110,
    unroundedUnary "fclass.d" 0b001 0b1110001 0b0010,
    roundedUnary "fcvt.w.d" 0b1100001 0 0b0010,
    roundedUnary "fcvt.wu.d" 0b1100001 1 0b0010,
    roundedUnary "fcvt.d.w" 0b1101001 0 0b0001,
    roundedUnary "fcvt.d.wu" 0b1101001 1 0b0001]

/-- The instructions that access control registers. -/
def controlRegister : List Encoding :=
  [minor "csrrw" 0b11100 0b001 .csr,
    minor "csrrs" 0b11100 0b010 .csr,
    minor "csrrc" 0b11100 0b011 .csr,
    minor "csrrwi" 0b11100 0b101 .csrImm,
    minor "csrrsi" 0b11100 0b110 .csrImm,
    minor "csrrci" 0b11100 0b111 .csrImm]

/-- A fixed word of the privileged architecture. -/
def fixedRow (mnemonic : String) (word : Word) : Encoding :=
  ⟨mnemonic, 0b11100, some 0b000, .exact word, .fixed, 0⟩

/-- The privileged instructions. -/
def privileged : List Encoding :=
  [fixedRow "ecall" 0x00000073,
    fixedRow "ebreak" 0x00100073,
    fixedRow "uret" 0x00200073,
    fixedRow "sret" 0x10200073,
    fixedRow "mret" 0x30200073,
    fixedRow "wfi" 0x10500073]

/-- All rows. -/
def table : List Encoding :=
  integer ++ multiplication ++ atomic ++ singlePrecision ++ doublePrecision ++ controlRegister
    ++ privileged

/-- The row of a mnemonic. -/
def ofMnemonic? (mnemonic : String) : Option Encoding :=
  table.find? (·.mnemonic == mnemonic)

end Riscv32.Encoding
