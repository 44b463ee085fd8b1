import Riscv32.Proofs.Hart.Exception
import Riscv32.Proofs.Hart.Lockstep
import Riscv32.Proofs.Hart.Uniform

/-!
# Decoded words can be executed

The rows of the encoding tables and the registrations of the instruction sets stand in the same
order, so each row is set beside a handler of its mnemonic, and the handler asks for operands of the
kinds that the row gives. The wait, the calls and the returns have fixed words and are listed one by
one. Hence whatever decodes has a handler, and the handler finds every operand. And it does the same
for two instructions that agree on the operands, of which a decoded word and its written form are a
case.

## Main definitions

* `Exec.Follows kinds rounded handler` — the outcome depends on operands of these kinds only.
* `Exec.Suits rows handlers` — rows and registrations side by side.
* `DispatchTable.standard` — the table of the standard sets.

## Main statements

* `DispatchTable.exists_handler_of_decode`, a handler for every decoded word.
* `Hart.fetch_of_unknownMnemonic`, steps that find no handler.
* `executable_of_decode`, decoded words can be executed.
* `sameOutcome_written`, decoded words and their written forms.
-/
namespace Riscv32

namespace Exec

variable {α : Type} {symbols : Symbols} {kinds : List OperandKind} {rounded : Bool}
  {i j : Instruction} {index : Nat} {handler : Handler} {e : Encoding}

/-- The handler has the same outcome for all instructions that agree on operands of the given
kinds, and finds all of them. -/
def Follows (kinds : List OperandKind) (rounded : Bool) (handler : Handler) : Prop :=
  ∀ symbols i j, Instruction.Agree symbols kinds rounded i j → ∀ h : Hart,
    h.memory.symbol? = symbols → Outcome (fun _ => True) (handler i h) (handler j h)

theorem Uniform.follows (hhandler : Uniform kinds rounded handler) :
    Follows kinds rounded handler := by
  intro symbols i j ha h hsymbols
  have houtcome := (hhandler symbols i j ha).outcome hsymbols
  generalize handler i h = r, handler j h = r' at houtcome
  cases houtcome with
  | ok a _ => exact .ok a trivial
  | error he hformed h' => exact .error he hformed h'

/-- A system call does what the host answers. -/
theorem outcome_systemCall (h : Hart) :
    Outcome (fun _ => True) (systemCall h) (systemCall h) := by
  have hread : ∀ (i : Nat) (h : Hart), Outcome (fun _ => True) (readX i h) (readX i h) :=
    fun _ _ => .ok _ trivial
  refine (hread _ h).bind fun id h _ => (hread _ h).bind fun a h _ => (hread _ h).bind fun b h _ =>
    (hread _ h).bind fun c h _ => outcome_get_bind ?_
  cases h.syscallHandler ⟨id, a, b, c⟩ h.memory with
  | mk answer memory =>
    cases answer with
    | error e => exact .error (.refl _) rfl _
    | ok outcome =>
      cases outcome with
      | returned v => exact .ok () trivial
      | exited code => exact .ok () trivial

/-- An environment call has no operands. The host may change the symbols, but it is called last. -/
theorem follows_environmentCall (kinds : List OperandKind) :
    Follows kinds false environmentCall := by
  intro symbols i j _ h _
  refine outcome_get_bind ?_
  by_cases hp : !h.privileged
  · rw [if_pos hp]
    exact outcome_systemCall h
  · rw [if_neg hp]
    cases h.privilege with
    | user => exact .error (.refl _) rfl h
    | machine => exact .error (.refl _) rfl h

/-! ## Rows and their handlers -/

/-- One by one, a registration has the mnemonic of a row, and its handler does the same for all
instructions that agree on the operands of the row. The registrations behind have no rows. -/
inductive Suits : List Encoding → List (String × Handler) → Prop
  | nil (handlers : List (String × Handler)) : Suits [] handlers
  | cons {e : Encoding} {rows : List Encoding} {handler : Handler}
    {handlers : List (String × Handler)} : Uniform e.kinds e.isRounded handler →
    Suits rows handlers → Suits (e :: rows) ((e.mnemonic, handler) :: handlers)

theorem suits_integer : Suits Encoding.integer integerHandlers :=
  .cons uniform_loadUpper <| .cons uniform_addUpperToPc <| .cons uniform_jumpAndLink <|
  .cons uniform_jumpAndLinkRegister <| .cons (uniform_branch _) <| .cons (uniform_branch _) <|
  .cons (uniform_branch _) <| .cons (uniform_branch _) <| .cons (uniform_branch _) <|
  .cons (uniform_branch _) <| .cons (uniform_loadInteger _ _) <| .cons (uniform_loadInteger _ _) <|
  .cons (uniform_loadInteger _ _) <| .cons (uniform_loadInteger _ _) <|
  .cons (uniform_loadInteger _ _) <| .cons (uniform_storeInteger _) <|
  .cons (uniform_storeInteger _) <| .cons (uniform_storeInteger _) <|
  .cons (uniform_registerImmediate _) <| .cons (uniform_registerImmediate _) <|
  .cons (uniform_registerImmediate _) <| .cons (uniform_registerImmediate _) <|
  .cons (uniform_registerImmediate _) <| .cons (uniform_registerImmediate _) <|
  .cons (uniform_registerImmediate _) <| .cons (uniform_registerImmediate _) <|
  .cons (uniform_registerImmediate _) <| .cons (uniform_registerRegister _) <|
  .cons (uniform_registerRegister _) <| .cons (uniform_registerRegister _) <|
  .cons (uniform_registerRegister _) <| .cons (uniform_registerRegister _) <|
  .cons (uniform_registerRegister _) <| .cons (uniform_registerRegister _) <|
  .cons (uniform_registerRegister _) <| .cons (uniform_registerRegister _) <|
  .cons (uniform_registerRegister _) <| .cons (uniform_idle _) <| .cons (uniform_idle _) <| .nil _

theorem suits_multiplication : Suits Encoding.multiplication multiplyHandlers :=
  .cons (uniform_registerRegister _) <| .cons (uniform_registerRegister _) <|
  .cons (uniform_registerRegister _) <| .cons (uniform_registerRegister _) <|
  .cons (uniform_registerRegister _) <| .cons (uniform_registerRegister _) <|
  .cons (uniform_registerRegister _) <| .cons (uniform_registerRegister _) <| .nil _

theorem suits_atomic : Suits Encoding.atomic atomicHandlers :=
  .cons uniform_loadReserved <| .cons uniform_storeConditional <|
  .cons (uniform_readModifyWrite _) <| .cons (uniform_readModifyWrite _) <|
  .cons (uniform_readModifyWrite _) <| .cons (uniform_readModifyWrite _) <|
  .cons (uniform_readModifyWrite _) <| .cons (uniform_readModifyWrite _) <|
  .cons (uniform_readModifyWrite _) <| .cons (uniform_readModifyWrite _) <|
  .cons (uniform_readModifyWrite _) <| .nil _

theorem suits_single : Suits Encoding.singlePrecision singleHandlers :=
  .cons (uniform_floatLoad _) <| .cons (uniform_floatStore _) <|
  .cons (uniform_floatFused _ _ _) <| .cons (uniform_floatFused _ _ _) <|
  .cons (uniform_floatFused _ _ _) <| .cons (uniform_floatFused _ _ _) <|
  .cons (uniform_floatBinary _ _) <| .cons (uniform_floatBinary _ _) <|
  .cons (uniform_floatBinary _ _) <| .cons (uniform_floatDivide _) <|
  .cons (uniform_floatSqrt _) <| .cons (uniform_floatInjectSign _ _) <|
  .cons (uniform_floatInjectSign _ _) <| .cons (uniform_floatInjectSign _ _) <|
  .cons (uniform_floatExtremum _ _) <| .cons (uniform_floatExtremum _ _) <|
  .cons (uniform_floatToInteger _ _) <| .cons (uniform_floatToInteger _ _) <|
  .cons uniform_floatToBits <| .cons (uniform_floatClassify _) <|
  .cons (uniform_floatCompare _ _) <| .cons (uniform_floatCompare _ _) <|
  .cons (uniform_floatCompare _ _) <| .cons (uniform_floatOfInteger _ _) <|
  .cons (uniform_floatOfInteger _ _) <| .cons uniform_floatOfBits <| .nil _

theorem suits_double : Suits Encoding.doublePrecision doubleHandlers :=
  .cons (uniform_floatLoad _).wide <| .cons (uniform_floatStore _).wide <|
  .cons (uniform_floatFused _ _ _).wide <| .cons (uniform_floatFused _ _ _).wide <|
  .cons (uniform_floatFused _ _ _).wide <| .cons (uniform_floatFused _ _ _).wide <|
  .cons (uniform_floatBinary _ _).wide <| .cons (uniform_floatBinary _ _).wide <|
  .cons (uniform_floatBinary _ _).wide <| .cons (uniform_floatDivide _).wide <|
  .cons (uniform_floatSqrt _).wide <| .cons (uniform_floatInjectSign _ _).wide <|
  .cons (uniform_floatInjectSign _ _).wide <| .cons (uniform_floatInjectSign _ _).wide <|
  .cons (uniform_floatExtremum _ _).wide <| .cons (uniform_floatExtremum _ _).wide <|
  .cons (uniform_floatConvert _ _).wide <| .cons (uniform_floatConvert _ _).wide <|
  .cons (uniform_floatCompare _ _).wide <| .cons (uniform_floatCompare _ _).wide <|
  .cons (uniform_floatCompare _ _).wide <| .cons (uniform_floatClassify _).wide <|
  .cons (uniform_floatToInteger _ _).wide <| .cons (uniform_floatToInteger _ _).wide <|
  .cons (uniform_floatOfInteger _ _).wide <| .cons (uniform_floatOfInteger _ _).wide <| .nil _

theorem suits_csr : Suits Encoding.controlRegister csrHandlers :=
  .cons (uniform_csrSwap uniform_registerSource) <|
  .cons (uniform_csrUpdate uniform_registerMask _) <|
  .cons (uniform_csrUpdate uniform_registerMask _) <|
  .cons (uniform_csrSwap uniform_smallImmediate) <|
  .cons (uniform_csrUpdate uniform_immediateMask _) <|
  .cons (uniform_csrUpdate uniform_immediateMask _) <| .nil _

/-- Every row that suits has a registration. -/
theorem Suits.exists_handler {rows : List Encoding} {handlers : List (String × Handler)}
    (hrows : Suits rows handlers) (he : e ∈ rows) :
    ∃ handler, (e.mnemonic, handler) ∈ handlers ∧ Follows e.kinds e.isRounded handler := by
  induction hrows with
  | nil => cases he
  | cons hhandler _ ih =>
    rcases List.mem_cons.1 he with rfl | he
    · exact ⟨_, List.mem_cons_self, hhandler.follows⟩
    · obtain ⟨handler, hmem, hfollows⟩ := ih he
      exact ⟨handler, List.mem_cons_of_mem _ hmem, hfollows⟩

/-- The fixed words have no operands, and their rows stand in another order than the handlers. -/
theorem exists_handler_of_mem_privileged : ∀ e ∈ Encoding.privileged,
    ∃ handler, (e.mnemonic, handler) ∈ systemHandlers ∧ Follows e.kinds e.isRounded handler := by
  simp only [Encoding.privileged, List.forall_mem_cons, List.not_mem_nil, false_implies,
    implies_true, and_true]
  refine ⟨⟨environmentCall, ?_, follows_environmentCall _⟩,
    ⟨environmentBreak, ?_, (uniform_environmentBreak _).follows⟩,
    ⟨unimplemented, ?_, (uniform_unimplemented _).follows⟩,
    ⟨unimplemented, ?_, (uniform_unimplemented _).follows⟩,
    ⟨machineReturn, ?_, (uniform_machineReturn _).follows⟩,
    ⟨waitForInterrupt, ?_, (uniform_waitForInterrupt _).follows⟩⟩ <;>
    simp [systemHandlers, Encoding.fixedRow]

/-- Every row of the tables has a registration in the standard sets. -/
theorem exists_handler_of_mem_table (he : e ∈ Encoding.table) :
    ∃ s ∈ InstructionSet.standard, ∃ handler, (e.mnemonic, handler) ∈ s.handlers ∧
      Follows e.kinds e.isRounded handler := by
  have hset : ∀ s ∈ InstructionSet.standard,
      (∃ handler, (e.mnemonic, handler) ∈ s.handlers ∧ Follows e.kinds e.isRounded handler) →
        ∃ s ∈ InstructionSet.standard, ∃ handler, (e.mnemonic, handler) ∈ s.handlers ∧
          Follows e.kinds e.isRounded handler := fun s hs h => ⟨s, hs, h⟩
  simp only [Encoding.table, List.mem_append] at he
  rcases he with (((((he | he) | he) | he) | he) | he) | he
  · exact hset .integer (by simp [InstructionSet.standard]) (suits_integer.exists_handler he)
  · exact hset .multiplication (by simp [InstructionSet.standard])
      (suits_multiplication.exists_handler he)
  · exact hset .atomic (by simp [InstructionSet.standard]) (suits_atomic.exists_handler he)
  · exact hset .singlePrecision (by simp [InstructionSet.standard]) (suits_single.exists_handler he)
  · exact hset .doublePrecision (by simp [InstructionSet.standard]) (suits_double.exists_handler he)
  · exact hset .controlRegister (by simp [InstructionSet.standard]) (suits_csr.exists_handler he)
  · exact hset .system (by simp [InstructionSet.standard]) (exists_handler_of_mem_privileged e he)

end Exec

/-! ## The standard table -/

namespace DispatchTable

/-- The table of the standard sets. -/
def standard : DispatchTable := ⟨InstructionSet.standard.flatMap InstructionSet.registrations⟩

/-- No mnemonic is registered twice in the standard sets. -/
theorem build_standard : build InstructionSet.standard = .ok standard := by
  have hbuild : build InstructionSet.standard = .ok _ := build_eq_ok (by decide +kernel)
  have hentries := entries_of_build hbuild
  rw [hbuild, standard, ← hentries]

/-- The standard table has a handler for every decoded word, which follows the operands of its
format. -/
theorem exists_handler_of_decode {w : Word} {d : Decoded} (hd : decode w = .ok d) :
    ∃ handler, standard.handler? d.mnemonic = some handler ∧
      Exec.Follows d.kinds d.isRounded handler := by
  obtain ⟨-, e, he, -, rfl⟩ := exists_row_of_decode hd
  obtain ⟨s, hs, handler, hmem, hfollows⟩ := Exec.exists_handler_of_mem_table he
  have hrounded : (e.decoded w).isRounded = e.isRounded := by
    change (Encoding.ofMnemonic? e.mnemonic).any (·.isRounded) = _
    rw [Encoding.ofMnemonic?_of_mem_table he]
    rfl
  have hfind := handler?_of_mem build_standard hs hmem
  refine ⟨handler, hfind, ?_⟩
  rw [hrounded]
  exact hfollows

end DispatchTable

/-! ## Steps -/

namespace Hart

variable {table : DispatchTable} {h h' : Hart} {mnemonic : String} {pc : Word}

theorem fail_ne_unknownMnemonic (inst : Option Instruction) (e : ExecError) (h h' : Hart) :
    h.fail inst e ≠ .error (.unknownMnemonic mnemonic pc) h' := by
  intro heq
  unfold fail at heq
  split at heq
  · cases heq
  · cases heq
  · dsimp only at heq
    split at heq <;> cases heq

/-- A mnemonic is unknown in a step only if the step fetched an instruction that has no handler. -/
theorem fetch_of_unknownMnemonic
    (hstep : h.step table = .error (.unknownMnemonic mnemonic pc) h') :
    ∃ b inst memory, h.fetching? = some b ∧ AddressSpace.fetch b.pc b.memory = .ok inst memory ∧
      table.handler? inst.mnemonic = none := by
  cases hb : h.fetching? with
  | none =>
    rcases step_of_fetching?_eq_none table hb with hres | ⟨limit, -, hres⟩ | hres <;>
      · rw [hres] at hstep
        cases hstep
  | some b =>
    rw [step_of_fetching? hb, fetchExecute] at hstep
    cases hfetch : AddressSpace.fetch b.pc b.memory with
    | error e memory =>
      simp only [hfetch] at hstep
      exact absurd hstep (fail_ne_unknownMnemonic _ _ _ _)
    | ok inst memory =>
      refine ⟨b, inst, memory, rfl, hfetch, ?_⟩
      simp only [hfetch, execute] at hstep
      split at hstep
      case h_1 hnone => exact hnone
      case h_2 handler _ =>
        split at hstep
        · cases hstep
        · exact absurd hstep (fail_ne_unknownMnemonic _ _ _ _)

end Hart

/-- Every decoded word has a handler in the standard table, and running it never fails for want of
an operand or register. So a step never finds a mnemonic unknown unless the section that it fetches
from holds instructions and no bytes, as long as decode caches are coherent; and steps keep them
so. -/
theorem executable_of_decode :
    (∀ w d, decode w = .ok d → ∃ handler,
      DispatchTable.standard.handler? d.mnemonic = some handler ∧
      ∀ h e h', handler (.raw d) h = .error e h' → e.isMalformed = false) ∧
    (∀ (h h' : Hart) mnemonic pc, h.memory.Alike h.memory →
      h.step DispatchTable.standard = .error (.unknownMnemonic mnemonic pc) h' →
        ∃ b s, h.fetching? = some b ∧ h.memory.sectionFor? b.pc = some s ∧
          s.holdsInstructions = true) ∧
    ∀ h : Hart, h.memory.Alike h.memory → h.syscallHandler.Unaware →
      (h.stepped DispatchTable.standard).memory.Alike (h.stepped DispatchTable.standard).memory ∧
        (h.stepped DispatchTable.standard).syscallHandler.Unaware := by
  refine ⟨?_, ?_, ?_⟩
  · intro w d hd
    obtain ⟨handler, hfind, hfollows⟩ := DispatchTable.exists_handler_of_decode hd
    refine ⟨handler, hfind, fun h e h' he => ?_⟩
    have houtcome := hfollows _ _ _ (Decoded.agree_self hd h.memory.symbol?) h rfl
    rw [he] at houtcome
    exact houtcome.formed
  · intro h h' mnemonic pc hcoherent hstep
    obtain ⟨b, inst, memory, hb, hfetch, hnone⟩ := Hart.fetch_of_unknownMnemonic hstep
    obtain ⟨s, t, hs, hslot⟩ := AddressSpace.section_of_fetch hfetch
    have hmemory : b.memory = h.memory := by
      obtain ⟨-, -, -, rfl⟩ := Hart.fetching?_eq_some hb
      exact (Hart.atBoundary_frame h).2.2
    rw [hmemory] at hs
    refine ⟨b, s, hb, hs, ?_⟩
    rw [← Bool.not_eq_false]
    intro hbytes
    have halike : s.Alike s := hcoherent.of_mem (AddressSpace.mem_of_sectionFor? hs).1
    obtain ⟨w, d, hd, rfl⟩ := halike.decode_of_fetch hbytes hslot
    obtain ⟨handler, hfind, -⟩ := DispatchTable.exists_handler_of_decode hd
    change DispatchTable.standard.handler? d.mnemonic = none at hnone
    rw [hfind] at hnone
    cases hnone
  · exact fun h => Hart.alike_stepped (fun _ hs => .inl hs) DispatchTable.build_standard

/-- A hart at an instruction that was never a word and has no handler. -/
def atUnknown : Hart :=
  { memory := { sections := [.ofInstructions ".text" 0 .code [.structured "unknown" []]] } }

/-- A square root has a handler. A mnemonic is found unknown in a section of instructions. -/
theorem executable_of_fsqrt :
    (∃ handler, DispatchTable.standard.handler? "fsqrt.d" = some handler ∧
      ∀ h e h', handler (.raw ⟨"fsqrt.d", [5, 6], 0x5A0372D3, .rUnary, 0b0011⟩) h = .error e h' →
        e.isMalformed = false) ∧
    (∃ h', atUnknown.step DispatchTable.standard = .error (.unknownMnemonic "unknown" 0) h') ∧
    ∃ b s, atUnknown.fetching? = some b ∧ atUnknown.memory.sectionFor? b.pc = some s ∧
      s.holdsInstructions = true := by
  have hd : decode 0x5A0372D3 = .ok ⟨"fsqrt.d", [5, 6], 0x5A0372D3, .rUnary, 0b0011⟩ := by
    decide +kernel
  have hcoherent : atUnknown.memory.Alike atUnknown.memory :=
    ⟨_, rfl, .cons (.instructions ..) .nil⟩
  have hstep : ∃ h',
      atUnknown.step DispatchTable.standard = .error (.unknownMnemonic "unknown" 0) h' :=
    ⟨_, rfl⟩
  obtain ⟨h', hunknown⟩ := hstep
  exact ⟨executable_of_decode.1 _ _ hd, ⟨h', hunknown⟩,
    executable_of_decode.2.1 _ _ _ _ hcoherent hunknown⟩

/-- What a decoded word does is what its written form does: the two handlers return the same but for
the encoding in an illegal instruction, and leave the same hart. The rounding mode must have a name,
and no symbol may be spelt like one of the numbers. -/
theorem sameOutcome_written {w : Word} {d : Decoded} (hd : decode w = .ok d)
    (hmode : d.isRounded = true → d.encoding.funct3 ≠ 5 ∧ d.encoding.funct3 ≠ 6) :
    ∃ handler, DispatchTable.standard.handler? d.mnemonic = some handler ∧
      ∀ h : Hart, (∀ t ∈ d.literals, h.memory.symbol? t = none) →
        SameOutcome (handler (.raw d) h) (handler d.written h) := by
  obtain ⟨handler, hfind, hfollows⟩ := DispatchTable.exists_handler_of_decode hd
  refine ⟨handler, hfind, fun h hsymbols => ?_⟩
  exact (hfollows _ _ _ (Decoded.agree_written hd hmode hsymbols) h rfl).same

/-- A conversion with its rounding mode, and a branch with its distance. -/
theorem sameOutcome_of_fcvt :
    (∃ handler, DispatchTable.standard.handler? "fcvt.w.s" = some handler ∧
      ∀ h : Hart, SameOutcome (handler (.raw ⟨"fcvt.w.s", [5, 1], 0xC00092D3, .rUnary, 0b0010⟩) h)
        (handler (.structured "fcvt.w.s" ["x5", "f1", "rtz"]) h)) ∧
    ∃ handler, DispatchTable.standard.handler? "beq" = some handler ∧
      ∀ h : Hart, h.memory.symbol? "-4" = none →
        SameOutcome (handler (.raw ⟨"beq", [1, 2, -4], 0xFE208EE3, .b, 0⟩) h)
          (handler (.structured "beq" ["x1", "x2", "-4"]) h) := by
  have hconvert : decode 0xC00092D3 = .ok ⟨"fcvt.w.s", [5, 1], 0xC00092D3, .rUnary, 0b0010⟩ := by
    decide +kernel
  have hbranch : decode 0xFE208EE3 = .ok ⟨"beq", [1, 2, -4], 0xFE208EE3, .b, 0⟩ := by decide +kernel
  have hconverted : (⟨"fcvt.w.s", [5, 1], 0xC00092D3, .rUnary, 0b0010⟩ : Decoded).written
      = .structured "fcvt.w.s" ["x5", "f1", "rtz"] := by decide +kernel
  have hbranched : (⟨"beq", [1, 2, -4], 0xFE208EE3, .b, 0⟩ : Decoded).written
      = .structured "beq" ["x1", "x2", "-4"] := by decide +kernel
  have hliterals : (⟨"beq", [1, 2, -4], 0xFE208EE3, .b, 0⟩ : Decoded).literals = ["-4"] := by
    decide +kernel
  obtain ⟨convert, hconvertFind, hconvertSame⟩ :=
    sameOutcome_written hconvert fun _ => ⟨by decide, by decide⟩
  obtain ⟨branch, hbranchFind, hbranchSame⟩ :=
    sameOutcome_written hbranch fun _ => ⟨by decide, by decide⟩
  rw [hconverted] at hconvertSame
  rw [hbranched, hliterals] at hbranchSame
  refine ⟨⟨convert, hconvertFind, fun h => hconvertSame h ?_⟩, branch, hbranchFind,
    fun h hsymbol => hbranchSame h ?_⟩
  · intro t ht
    cases ht
  · intro t ht
    rw [List.mem_singleton.1 ht]
    exact hsymbol

end Riscv32
