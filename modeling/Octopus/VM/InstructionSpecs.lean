import Octopus.VM.Conduct

/-!
# What instructions do

Most instructions are tame: they open no frame, and leave the contract, the program
counter, the length of the memory and what was charged for it as they are.
-/

namespace Octopus

open Library Memory

variable {dataOffset value addr requested inOffset inSize : Word} {pos handed size : Nat}
  {log : List Round}

/-- Two frames that differ only in the gas, the stack, the contents of the
memory and the data of the last call. -/
structure Frame.Alike (before after : Frame) : Prop where
  contract : after.contract = { before.contract with gas := after.contract.gas }
  pc : after.pc = before.pc
  length : after.memory.store.length = before.memory.store.length
  lastGasCost : after.memory.lastGasCost = before.memory.lastGasCost

namespace Setting

variable (setting : Setting) (limit : Nat)

def Lenient : Prop :=
  ∀ message, setting.faulty (.panic message)

def Tame (execute : Exec Outcome) (frame : Frame) : Prop :=
  setting.Runs limit (execute frame) fun result log =>
    log = [] ∧ result.2.contract.gas = frame.contract.gas ∧ frame.Alike result.2

def Final (execute : Exec Outcome) (frame : Frame) : Prop :=
  setting.Runs limit (execute frame) fun result log =>
    log = [] ∧ result.2.contract.gas = frame.contract.gas ∧ result.1.2 ≠ none

/-- The instruction opens a frame, and returns at most the gas that it handed
out, less one for each round but one. -/
def Spends (handed : Nat) (execute : Exec Outcome) (frame : Frame) : Prop :=
  setting.Runs limit (execute frame) fun result log =>
    frame.Alike result.2 ∧
      (setting.Metered → result.2.contract.gas + log.length ≤ frame.contract.gas + handed + 1)

end Setting

variable {env : Setting} {limit : Nat}

variable {frame : Frame}

theorem Setting.Runs.still {program : Interaction Fault Request Request.Reply (Outcome × Frame)}
    {outcome : Outcome} {stack : List Word} {returnData : Bytes} {passed : Nat}
    (executed : program =
      .done (outcome, ⟨frame.contract, frame.pc, stack, frame.memory, returnData, passed⟩)) :
    env.Runs limit program fun res log =>
      log = [] ∧ res.2.contract.gas = frame.contract.gas ∧ frame.Alike res.2 :=
  .of_eq executed ⟨rfl, rfl, rfl, rfl, rfl, rfl⟩

theorem tame_unaryOp (instr : Word → Word) (enough : 1 ≤ frame.stack.length) :
    env.Tame limit (unaryOp instr) frame := by
  cases frame
  rcases exists_cons enough with ⟨_, stack, rfl, -⟩
  exact .still rfl

theorem tame_binaryOp (instr : Word → Word → Word) (enough : 2 ≤ frame.stack.length) :
    env.Tame limit (binaryOp instr) frame := by
  cases frame
  rcases exists_two enough with ⟨_, _, stack, rfl, -⟩
  exact .still rfl

theorem tame_ternaryOp (instr : Word → Word → Word → Word)
    (enough : 3 ≤ frame.stack.length) : env.Tame limit (ternaryOp instr) frame := by
  cases frame
  rcases exists_three enough with ⟨_, _, _, stack, rfl, -⟩
  exact .still rfl

theorem tame_push (word : Frame → Word) :
    env.Tame limit (get >>= fun frame => pushOp (word frame)) frame :=
  .still rfl

theorem tame_pushOp (word : Word) : env.Tame limit (pushOp word) frame :=
  .still rfl

theorem tame_pushBigOp {value : Option Int} (known : value.isSome = true ∨ env.Lenient) :
    env.Tame limit (pushBigOp value) frame := by
  cases value with
  | some => exact tame_pushOp _
  | none =>
    rcases known with impossible | lenient
    · cases impossible
    · exact .fail (lenient _)

section

variable (enough : 1 ≤ frame.stack.length)
include enough

theorem tame_opBalance : env.Tame limit opBalance frame := by
  cases frame
  rcases exists_cons enough with ⟨_, _, rfl, -⟩
  apply Setting.Runs.plain rfl
  intro _
  exact .still rfl

theorem tame_opExtCodeSize : env.Tame limit opExtCodeSize frame := by
  cases frame
  rcases exists_cons enough with ⟨_, _, rfl, -⟩
  apply Setting.Runs.plain rfl
  intro _
  exact .still rfl

theorem tame_opSload : env.Tame limit opSload frame := by
  cases frame
  rcases exists_cons enough with ⟨_, _, rfl, -⟩
  apply Setting.Runs.plain rfl
  intro _
  exact .still rfl

omit enough in
theorem tame_opSelfBalance : env.Tame limit opSelfBalance frame := by
  apply Setting.Runs.plain rfl
  intro _
  exact .still rfl

theorem tame_opExtCodeHash : env.Tame limit opExtCodeHash frame := by
  cases frame
  rcases exists_cons enough with ⟨_, _, rfl, -⟩
  apply Setting.Runs.plain rfl
  intro empty
  cases empty with
  | true => exact .still rfl
  | false =>
    apply Setting.Runs.plain rfl
    intro _
    exact .still rfl

theorem tame_opCallDataLoad : env.Tame limit opCallDataLoad frame := by
  cases frame with | mk contract =>
  rcases exists_cons enough with ⟨word, _, rfl, -⟩
  rcases getData_eq contract.input word.uint64 (show 32 ≤ memoryLimit by decide) with ⟨_, same⟩
  unfold Setting.Tame opCallDataLoad
  rw [peek_bind, get_bind]
  split
  · rw [same, pure_bind]
    exact .still rfl
  · exact .still rfl

end

theorem tame_opBlockhash (ovm : OVM) (enough : 1 ≤ frame.stack.length) :
    env.Tame limit (opBlockhash ovm) frame := by
  cases frame
  rcases exists_cons enough with ⟨_, stack, rfl, -⟩
  unfold Setting.Tame opBlockhash
  rw [peek_bind]
  generalize ite (ovm.context.blockNumber % uint64Size < 257) _ _ = lower
  split
  · exact .still rfl
  · split <;> exact .still rfl

theorem tame_difficulty (ovm : OVM) :
    env.Tame limit (if ovm.rules.isMerge then opRandom ovm else opDifficulty ovm) frame := by
  change env.Tame limit
    (if ovm.context.random.isSome then opRandom ovm else opDifficulty ovm) frame
  cases known : ovm.context.random with
  | none => exact tame_pushOp _
  | some random =>
    simp only [Option.isSome_some, opRandom, known]
    exact tame_pushOp random

theorem tame_opPop (enough : 1 ≤ frame.stack.length) : env.Tame limit opPop frame := by
  cases frame
  rcases exists_cons enough with ⟨_, stack, rfl, -⟩
  exact .still rfl

theorem tame_makeDup (positive : 1 ≤ size) (enough : size ≤ frame.stack.length) :
    env.Tame limit (makeDup size) frame := by
  have found : frame.stack[size - 1]? = some (frame.stack[size - 1]) :=
    List.getElem?_eq_getElem (by omega)
  unfold Setting.Tame makeDup dup
  rw [bind_assoc, back_bind frame found]
  exact .still rfl

theorem tame_makeSwap (enough : size + 1 ≤ frame.stack.length) :
    env.Tame limit (makeSwap size) frame := by
  have top : frame.stack[0]? = some (frame.stack[0]) := List.getElem?_eq_getElem (by omega)
  have found : frame.stack[size + 1 - 1]? = some (frame.stack[size + 1 - 1]) :=
    List.getElem?_eq_getElem (by omega)
  unfold Setting.Tame makeSwap swap peek
  rw [bind_assoc, back_bind frame top, bind_assoc, back_bind frame found]
  exact .still rfl

variable {contract : Contract} {pc : Nat} {stack : List Word} {memory : Memory}
  {returnData : Bytes} {callGasTemp : Nat} {offset size : Word}

theorem tame_opMload (fits : memory.Fits) (inside : offset.toNat + 32 ≤ memory.store.length) :
    env.Tame limit opMload ⟨contract, pc, offset :: stack, memory, returnData, callGasTemp⟩ := by
  have covers : Covers memory.store offset.toNat (32 : Word).toNat := .inr inside
  rcases getPtr_of_covers fits covers with ⟨_, read⟩
  unfold Setting.Tame opMload
  rw [peek_bind, readMemory_bind _ read]
  exact .still rfl

theorem tame_opMstore (fits : memory.Fits) (small : offset.toNat < uint64Size)
    (inside : offset.toNat + 32 ≤ memory.store.length) :
    env.Tame limit opMstore
      ⟨contract, pc, offset :: value :: stack, memory, returnData, callGasTemp⟩ := by
  rcases set32_of_covers fits inside value with ⟨_, wrote, length, lastGasCost⟩
  unfold Setting.Tame opMstore
  rw [pop_bind, pop_bind, Word.uint64_of_lt small, writeWord_bind _ wrote]
  exact .of_eq rfl ⟨rfl, rfl, rfl, rfl, length, lastGasCost⟩

theorem tame_opMstore8 (small : offset.toNat < uint64Size)
    (inside : offset.toNat + 1 ≤ memory.store.length) :
    env.Tame limit opMstore8
      ⟨contract, pc, offset :: value :: stack, memory, returnData, callGasTemp⟩ := by
  unfold Setting.Tame opMstore8
  rw [pop_bind, pop_bind, Word.uint64_of_lt small, writeByte, bind_assoc, get_bind]
  rw [if_pos (Nat.lt_of_succ_le inside)]
  exact .of_eq rfl ⟨rfl, rfl, rfl, rfl, List.length_set, rfl⟩

theorem popMany_apply {count : Nat} (frame : Frame) (enough : count ≤ frame.stack.length) :
    ∃ words rest, popMany count frame = .done (words, { frame with stack := rest }) := by
  induction count generalizing frame with
  | zero => exact ⟨[], frame.stack, rfl⟩
  | succ count ih =>
    rcases frame with ⟨contract, pc, stack, memory, returnData, callGasTemp⟩
    rcases exists_cons enough with ⟨top, stack, rfl, more⟩
    rcases ih ⟨contract, pc, stack, memory, returnData, callGasTemp⟩ more with ⟨words, rest, popped⟩
    refine ⟨top :: words, rest, ?_⟩
    change (popMany count _).andThen _ = _
    rw [popped]
    rfl

section

variable (fits : memory.Fits) (covers : Covers memory.store offset.toNat size.toNat)
include fits covers

theorem runs_writeMemory (old : Frame) {data : Bytes} (gas : contract.gas = old.contract.gas)
    (alike : old.Alike ⟨contract, pc, stack, memory, returnData, callGasTemp⟩) :
    env.Runs limit ((writeMemory offset.uint64 size.uint64 data >>= fun _ => proceed)
        ⟨contract, pc, stack, memory, returnData, callGasTemp⟩)
      fun res log =>
        log = [] ∧ res.2.contract.gas = old.contract.gas ∧ old.Alike res.2 := by
  rcases set_of_covers fits covers data with ⟨_, wrote, length, lastGasCost⟩
  rw [writeMemory_bind _ wrote]
  exact .of_eq rfl ⟨rfl, gas, alike.contract, alike.pc, length.trans alike.length,
    lastGasCost.trans alike.lastGasCost⟩

theorem runs_copyData (old : Frame) (data : Bytes) (start : Nat)
    (gas : contract.gas = old.contract.gas)
    (alike : old.Alike ⟨contract, pc, stack, memory, returnData, callGasTemp⟩) :
    env.Runs limit ((getData data start size.uint64 >>= fun read =>
        writeMemory offset.uint64 size.uint64 read >>= fun _ => proceed)
        ⟨contract, pc, stack, memory, returnData, callGasTemp⟩)
      fun res log =>
        log = [] ∧ res.2.contract.gas = old.contract.gas ∧ old.Alike res.2 := by
  have least : size.uint64 ≤ size.toNat := Nat.mod_le _ _
  have held := fits.length_le
  have within : size.uint64 ≤ memoryLimit := by
    rcases covers with empty | inside <;> omega
  rcases getData_eq data start within with ⟨read, same⟩
  rw [same, pure_bind]
  exact runs_writeMemory fits covers old gas alike

theorem tame_opCallDataCopy :
    env.Tame limit opCallDataCopy
      ⟨contract, pc, offset :: dataOffset :: size :: stack, memory, returnData, callGasTemp⟩ :=
  runs_copyData fits covers _ _ _ rfl ⟨rfl, rfl, rfl, rfl⟩

theorem tame_opCodeCopy :
    env.Tame limit opCodeCopy
      ⟨contract, pc, offset :: dataOffset :: size :: stack, memory, returnData, callGasTemp⟩ :=
  runs_copyData fits covers _ _ _ rfl ⟨rfl, rfl, rfl, rfl⟩

theorem tame_opExtCodeCopy :
    env.Tame limit opExtCodeCopy
      ⟨contract, pc, addr :: offset :: dataOffset :: size :: stack, memory, returnData,
        callGasTemp⟩ := by
  apply Setting.Runs.plain rfl
  intro _
  exact runs_copyData fits covers _ _ _ rfl ⟨rfl, rfl, rfl, rfl⟩

/-- The sum of the operands does not wrap around, so the slice never ends before its start. -/
theorem tame_opReturnDataCopy (small : size.toNat < uint64Size) :
    env.Tame limit opReturnDataCopy
      ⟨contract, pc, offset :: dataOffset :: size :: stack, memory, returnData, callGasTemp⟩ := by
  unfold Setting.Tame opReturnDataCopy
  rw [pop_bind, pop_bind, pop_bind, get_bind]
  split
  · exact .still rfl
  · next offsetSmall =>
    split
    · exact .still rfl
    · next stopSmall =>
      have offsetSmall : dataOffset.toNat < uint64Size := by simpa [Word.isUint64] using offsetSmall
      have stopSmall : (dataOffset + size).toNat < uint64Size := by
        have both : Word.isUint64 (dataOffset + size) = true := by
          by_contra large
          simp [large] at stopSmall
        simpa [Word.isUint64] using both
      have ordered : ¬ Word.uint64 (dataOffset + size) < Word.uint64 dataOffset := by
        rw [Word.uint64_of_lt offsetSmall, Word.uint64_of_lt stopSmall, BitVec.toNat_add]
        unfold uint64Size at offsetSmall small
        omega
      rw [if_neg ordered]
      exact runs_writeMemory fits covers
        ⟨contract, pc, offset :: dataOffset :: size :: stack, memory, returnData, callGasTemp⟩
        rfl ⟨rfl, rfl, rfl, rfl⟩

theorem tame_opKeccak256 [Crypto] (ovm : OVM) :
    env.Tame limit (opKeccak256 ovm)
      ⟨contract, pc, offset :: size :: stack, memory, returnData, callGasTemp⟩ := by
  rcases getPtr_of_covers fits covers with ⟨_, read⟩
  unfold Setting.Tame opKeccak256
  rw [pop_bind, peek_bind, readMemory_bind _ read]
  split
  · apply Setting.Runs.plain rfl
    intro _
    exact .still rfl
  · exact .still rfl

theorem final_opReturn :
    env.Final limit opReturn
      ⟨contract, pc, offset :: size :: stack, memory, returnData, callGasTemp⟩ := by
  rcases getPtr_of_covers fits covers with ⟨_, read⟩
  unfold Setting.Final opReturn
  rw [pop_bind, pop_bind, readMemory_bind _ read]
  exact .of_eq rfl ⟨rfl, rfl, by simp⟩

theorem final_opRevert :
    env.Final limit opRevert
      ⟨contract, pc, offset :: size :: stack, memory, returnData, callGasTemp⟩ := by
  rcases getPtr_of_covers fits covers with ⟨_, read⟩
  unfold Setting.Final opRevert
  rw [pop_bind, pop_bind, readMemory_bind _ read]
  exact .of_eq rfl ⟨rfl, rfl, by simp⟩

theorem tame_makeLog (ovm : OVM) {topics : Nat} (enough : topics ≤ stack.length) :
    env.Tame limit (makeLog ovm env.level topics)
      ⟨contract, pc, offset :: size :: stack, memory, returnData, callGasTemp⟩ := by
  rcases getPtr_of_covers fits covers with ⟨_, read⟩
  rcases popMany_apply ⟨contract, pc, stack, memory, returnData, callGasTemp⟩ enough with
    ⟨words, rest, popped⟩
  unfold Setting.Tame makeLog
  split
  · exact .still rfl
  · next writable =>
    change env.Runs limit ((popMany topics _).andThen _) _
    rw [popped]
    change env.Runs limit ((readMemory offset size >>= _) _) _
    rw [readMemory_bind _ read]
    apply Setting.Runs.silent (.write writable rfl rfl) rfl
    intro _
    exact .still rfl

end

theorem final_opStop : env.Final limit opStop frame :=
  .of_eq rfl ⟨rfl, rfl, by simp⟩

theorem final_opUndefined (inside : frame.pc < frame.contract.code.length) :
    env.Final limit opUndefined frame := by
  unfold Setting.Final opUndefined
  rw [get_bind, List.getElem?_eq_getElem inside]
  exact .of_eq rfl ⟨rfl, rfl, by simp⟩

theorem tame_opSstore (enough : 2 ≤ frame.stack.length) :
    env.Tame limit (opSstore env.level) frame := by
  cases frame
  rcases exists_two enough with ⟨_, _, stack, rfl, -⟩
  unfold Setting.Tame opSstore
  split
  · exact .still rfl
  · next writable =>
    apply Setting.Runs.silent (.write writable rfl rfl) rfl
    intro _
    exact .still rfl

theorem tame_opSelfdestruct (enough : 1 ≤ frame.stack.length) :
    env.Tame limit (opSelfdestruct env.level) frame := by
  cases frame
  rcases exists_cons enough with ⟨_, stack, rfl, -⟩
  unfold Setting.Tame opSelfdestruct
  split
  · exact .still rfl
  · next writable =>
    apply Setting.Runs.silent (.write writable rfl rfl) rfl
    intro _
    exact .still rfl

theorem settleCreate_eq (res : CreateResult) (failed : Bool) (frame : Frame) :
    ∃ outcome new, settleCreate res failed frame = .done (outcome, new) ∧ frame.Alike new ∧
      new.contract.gas = (frame.contract.gas + res.leftOverGas) % uint64Size := by
  unfold settleCreate
  rw [push_bind, returnGas_bind]
  split
  · exact ⟨_, _, rfl, ⟨rfl, rfl, rfl, rfl⟩, rfl⟩
  · exact ⟨_, _, rfl, ⟨rfl, rfl, rfl, rfl⟩, rfl⟩

theorem settleCall_eq (res : CallResult) (frame : Frame) (fits : frame.memory.Fits)
    (covers : Covers frame.memory.store offset.toNat size.toNat) :
    ∃ outcome new, settleCall res offset size frame = .done (outcome, new) ∧ frame.Alike new ∧
      new.contract.gas = (frame.contract.gas + res.leftOverGas) % uint64Size := by
  rcases set_of_covers fits covers res.ret with ⟨memory, wrote, length, lastGasCost⟩
  unfold settleCall
  rw [push_bind]
  generalize ite (res.err.isSome = true) (0 : Word) 1 = flag
  split
  · rw [writeMemory_bind { frame with stack := flag :: frame.stack } wrote]
    exact ⟨_, _, rfl, ⟨rfl, rfl, length, lastGasCost⟩, rfl⟩
  · exact ⟨_, _, rfl, ⟨rfl, rfl, rfl, rfl⟩, rfl⟩

theorem settled_spends {old frame : Frame}
    {ending : Interaction Fault Request Request.Reply (Outcome × Frame)} {leftOver total : Nat}
    (settles : ∃ outcome new, ending = .done (outcome, new) ∧ frame.Alike new ∧
      new.contract.gas = (frame.contract.gas + leftOver) % uint64Size)
    (alike : old.Alike frame) (paid : frame.contract.gas + handed ≤ total)
    (costs : env.Costs handed leftOver log) :
    ∃ value, ending = .done value ∧ old.Alike value.2 ∧
      (env.Metered → value.2.contract.gas + log.length ≤ total + 1) := by
  rcases settles with ⟨outcome, new, settled, same, ran⟩
  refine ⟨(outcome, new), settled, ?_, ?_⟩
  · refine ⟨?_, same.pc.trans alike.pc, same.length.trans alike.length,
      same.lastGasCost.trans alike.lastGasCost⟩
    rw [same.contract, alike.contract]
  · intro metered
    have bound := (costs metered).2
    have wrapped := Nat.mod_le (frame.contract.gas + leftOver) uint64Size
    rw [ran]
    omega

section

variable (fits : memory.Fits)
include fits

section

variable (input : Covers memory.store inOffset.toNat inSize.toNat)
include input

theorem valuelessCall_apply (ask : Address → Address → Bytes → Nat → Exec CallResult) :
    ∃ args, valuelessCall ask
        ⟨contract, pc, requested :: addr :: inOffset :: inSize :: offset :: size :: stack,
          memory, returnData, callGasTemp⟩ =
      (ask contract.self (wordAddress addr) args callGasTemp >>= fun res =>
        settleCall res offset size)
          ⟨contract, pc, stack, memory, returnData, callGasTemp⟩ := by
  rcases getPtr_of_covers fits input with ⟨args, read⟩
  refine ⟨args, ?_⟩
  unfold valuelessCall
  simp only [pop_bind, get_bind]
  rw [readMemory_bind _ read]
  rfl

variable (output : Covers memory.store offset.toNat size.toNat)
include output

theorem spends_opCall (room : env.Metered → withStipend callGasTemp value + 1 ≤ limit) :
    env.Spends limit (withStipend callGasTemp value) (opCall env.level)
      ⟨contract, pc, requested :: addr :: value :: inOffset :: inSize :: offset :: size :: stack,
        memory, returnData, callGasTemp⟩ := by
  rcases getPtr_of_covers fits input with ⟨args, read⟩
  unfold Setting.Spends opCall
  simp only [pop_bind, get_bind]
  rw [readMemory_bind _ read]
  split
  · exact ⟨⟨rfl, rfl, rfl, rfl⟩, fun _ => Nat.le_add_right_of_le (Nat.le_add_right _ _)⟩
  · next permitted =>
    have valueless : env.level.readOnly = true →
        (Request.call contract.self (wordAddress addr) args (withStipend callGasTemp value)
          value).writes = false := by
      intro readOnly
      simpa [readOnly, Request.writes] using permitted
    apply Setting.Runs.frame (.opens rfl room valueless) rfl
    rintro res log ⟨-, costs⟩
    exact settled_spends (settleCall_eq _ _ fits output) ⟨rfl, rfl, rfl, rfl⟩ le_rfl costs

theorem spends_opCallCode (room : env.Metered → withStipend callGasTemp value + 1 ≤ limit) :
    env.Spends limit (withStipend callGasTemp value) opCallCode
      ⟨contract, pc, requested :: addr :: value :: inOffset :: inSize :: offset :: size :: stack,
        memory, returnData, callGasTemp⟩ := by
  rcases getPtr_of_covers fits input with ⟨_, read⟩
  unfold Setting.Spends opCallCode
  simp only [pop_bind, get_bind]
  rw [readMemory_bind _ read]
  apply Setting.Runs.frame (.opens rfl room fun _ => rfl) rfl
  rintro res log ⟨-, costs⟩
  exact settled_spends (settleCall_eq _ _ fits output) ⟨rfl, rfl, rfl, rfl⟩ le_rfl costs

variable (room : env.Metered → callGasTemp + 1 ≤ limit)
include room

theorem spends_opDelegateCall :
    env.Spends limit callGasTemp opDelegateCall
      ⟨contract, pc, requested :: addr :: inOffset :: inSize :: offset :: size :: stack,
        memory, returnData, callGasTemp⟩ := by
  rcases valuelessCall_apply fits input fun caller addr input gas =>
    request (.delegateCall caller addr input gas) with ⟨args, executed⟩
  unfold Setting.Spends opDelegateCall
  rw [executed, request_bind]
  apply Setting.Runs.frame (.opens rfl room fun _ => rfl) rfl
  rintro res log ⟨-, costs⟩
  exact settled_spends (settleCall_eq _ _ fits output) ⟨rfl, rfl, rfl, rfl⟩ le_rfl costs

theorem spends_opStaticCall :
    env.Spends limit callGasTemp opStaticCall
      ⟨contract, pc, requested :: addr :: inOffset :: inSize :: offset :: size :: stack,
        memory, returnData, callGasTemp⟩ := by
  rcases valuelessCall_apply fits input fun caller addr input gas =>
    request (.staticCall caller addr input gas) with ⟨args, executed⟩
  unfold Setting.Spends opStaticCall
  rw [executed, request_bind]
  apply Setting.Runs.frame (.opens rfl room fun _ => rfl) rfl
  rintro res log ⟨-, costs⟩
  exact settled_spends (settleCall_eq _ _ fits output) ⟨rfl, rfl, rfl, rfl⟩ le_rfl costs

end

variable (input : Covers memory.store offset.toNat size.toNat)
  (room : env.Metered → contract.gas + 1 ≤ limit)
include input room

theorem spends_opCreate :
    env.Spends limit 0 (opCreate env.ovm env.level)
      ⟨contract, pc, value :: offset :: size :: stack, memory, returnData, callGasTemp⟩ := by
  rcases getPtr_of_covers fits input with ⟨_, read⟩
  unfold Setting.Spends opCreate
  split
  · exact .of_eq rfl ⟨⟨rfl, rfl, rfl, rfl⟩, fun _ => Nat.le_add_right _ _⟩
  · next writable =>
    simp only [pop_bind]
    rw [readMemory_bind _ read, get_bind]
    have affordable : (if env.ovm.rules.isEIP150 = true then contract.gas - contract.gas / 64
        else contract.gas) ≤ contract.gas := by
      split <;> omega
    generalize (if env.ovm.rules.isEIP150 = true then contract.gas - contract.gas / 64
        else contract.gas) = handed at affordable
    rw [useGas_bind, if_neg (Nat.not_lt.mpr affordable), request_bind]
    have handedRoom : env.Metered → handed + 1 ≤ limit := by
      intro metered
      have := room metered
      omega
    apply Setting.Runs.frame (.opens rfl handedRoom fun readOnly => absurd readOnly writable) rfl
    rintro res log ⟨-, costs⟩
    exact settled_spends (settleCreate_eq _ _ _) ⟨rfl, rfl, rfl, rfl⟩
      (Nat.sub_add_cancel affordable).le costs

theorem spends_opCreate2 {endowment salt : Word} :
    env.Spends limit 0 (opCreate2 env.level)
      ⟨contract, pc, endowment :: offset :: size :: salt :: stack, memory, returnData,
        callGasTemp⟩ := by
  rcases getPtr_of_covers fits input with ⟨_, read⟩
  unfold Setting.Spends opCreate2
  split
  · exact .of_eq rfl ⟨⟨rfl, rfl, rfl, rfl⟩, fun _ => Nat.le_add_right _ _⟩
  · next writable =>
    simp only [pop_bind]
    rw [readMemory_bind _ read, get_bind]
    have affordable : contract.gas - contract.gas / 64 ≤ contract.gas := Nat.sub_le _ _
    generalize contract.gas - contract.gas / 64 = handed at affordable
    rw [useGas_bind, if_neg (Nat.not_lt.mpr affordable), request_bind]
    have handedRoom : env.Metered → handed + 1 ≤ limit := by
      intro metered
      have := room metered
      omega
    apply Setting.Runs.frame (.opens rfl handedRoom fun readOnly => absurd readOnly writable) rfl
    rintro res log ⟨-, costs⟩
    exact settled_spends (settleCreate_eq _ _ _) ⟨rfl, rfl, rfl, rfl⟩
      (Nat.sub_add_cancel affordable).le costs

end

theorem runs_push (size : Nat) :
    env.Runs limit ((if size = 1 then opPush1 else makePush size) frame) fun res log =>
      log = [] ∧ res.2.contract = frame.contract ∧ res.2.memory = frame.memory ∧
        res.2.pc = (frame.pc + size) % uint64Size := by
  split
  · next one =>
    subst one
    exact .of_eq rfl ⟨rfl, rfl, rfl, rfl⟩
  · exact .of_eq rfl ⟨rfl, rfl, rfl, rfl⟩

def Unmarked (bits : Bytes) (position : Nat) : Prop :=
  ∃ byte, bits[position / 8]? = some byte ∧ byte.getLsbD (position % 8) = false

namespace Setting

def Ranged (setting : Setting) : Prop :=
  setting.Lenient ∨ ∀ bits position, setting.Trusted bits → position < setting.code.length →
    position / 8 < bits.length

structure Runner (setting : Setting) (contract : Contract) : Prop where
  code : contract.code = setting.code
  codeHash : contract.codeHash = setting.codeHash
  analysis : ∀ bits, contract.analysis = some bits → setting.Trusted bits

structure Landing (setting : Setting) (position : Nat) : Prop where
  small : position < uint64Size
  jumpdest : setting.code[position]? = some 0x5b
  unmarked : ∃ bits, setting.Trusted bits ∧ Unmarked bits position

end Setting

theorem runs_codeSegment (ranged : env.Ranged) {bits : Bytes} (trusted : env.Trusted bits)
    (inside : pos < env.code.length) (frame : Frame) :
    env.Runs limit (codeSegment bits pos frame) fun res log =>
      log = [] ∧ res.2 = frame ∧ (res.1 = true → Unmarked bits pos) := by
  unfold codeSegment
  cases found : bits[pos / 8]? with
  | some byte =>
    refine .of_eq rfl ⟨rfl, rfl, fun valid => ⟨byte, found, ?_⟩⟩
    simpa using valid
  | none =>
    rcases ranged with lenient | ranged
    · exact .fail (lenient _)
    · have here := ranged bits pos trusted inside
      rw [List.getElem?_eq_none_iff] at found
      omega

def Frame.analysed (frame : Frame) (bits : Bytes) : Frame :=
  { frame with contract := { frame.contract with analysis := some bits } }

theorem runs_isCode (ranged : env.Ranged) (inside : pos < env.code.length)
    (runner : env.Runner frame.contract) :
    env.Runs limit (isCode pos frame) fun res log =>
      log = [] ∧ ∃ bits, env.Trusted bits ∧ res.2 = frame.analysed bits ∧
        (res.1 = true → Unmarked bits pos) := by
  unfold isCode
  rw [get_bind]
  cases known : frame.contract.analysis with
  | some bits =>
    have trusted := runner.analysis bits known
    apply (runs_codeSegment ranged trusted inside frame).mono
    rintro ⟨valid, new⟩ log ⟨unlogged, rfl, unmarked⟩
    refine ⟨unlogged, bits, trusted, ?_, unmarked⟩
    rcases new with ⟨⟨⟩⟩
    cases known
    rfl
  | none =>
    have segment : ∀ bits, env.Trusted bits →
        env.Runs limit (codeSegment bits pos (frame.analysed bits)) fun res log =>
          log = [] ∧ ∃ bits, env.Trusted bits ∧ res.2 = frame.analysed bits ∧
            (res.1 = true → Unmarked bits pos) := by
      intro bits trusted
      apply (runs_codeSegment ranged trusted inside _).mono
      rintro ⟨valid, new⟩ log ⟨unlogged, rfl, unmarked⟩
      exact ⟨unlogged, bits, trusted, rfl, unmarked⟩
    have own : env.Trusted (codeBitmap frame.contract.code) :=
      .inl (congrArg codeBitmap runner.code)
    by_cases hashed : frame.contract.codeHash ≠ 0
    · rw [if_pos hashed]
      refine ⟨⟨fun _ => rfl, ?_, ?_⟩, ?_, ?_⟩
      · intro gas handed
        cases handed
      · intro hash bits impossible
        cases impossible
      · rintro reply log ⟨-, rfl, shared⟩
        cases reply with
        | some bits =>
          apply segment bits
          refine .inr ⟨runner.codeHash ▸ hashed, ?_⟩
          rw [← runner.codeHash]
          exact shared bits rfl
        | none =>
          apply Setting.Runs.silent _ rfl
          · intro _
            exact segment _ own
          · refine ⟨fun _ => rfl, ?_, ?_⟩
            · intro gas handed
              cases handed
            · rintro hash bits ⟨⟩
              exact ⟨runner.codeHash, hashed, congrArg codeBitmap runner.code⟩
      · rintro reason log ⟨-, faulty, rounds⟩
        exact ⟨faulty, fun metered => (rounds metered).trans (Nat.zero_le limit)⟩
    · rw [if_neg hashed]
      exact segment _ own

/-- A frame after a jump: only the analysis, the stack and the program counter
may have changed. -/
structure Setting.Jumped (setting : Setting) (before after : Frame) : Prop where
  runner : setting.Runner after.contract
  gas : after.contract.gas = before.contract.gas
  memory : after.memory = before.memory

theorem Setting.Jumped.withPc {old new : Frame} (jumped : env.Jumped old new)
    (pc : Nat) : env.Jumped old { new with pc := pc } :=
  ⟨jumped.runner, jumped.gas, jumped.memory⟩

theorem runs_validJumpdest (ranged : env.Ranged) (destination : Word)
    (runner : env.Runner frame.contract) :
    env.Runs limit (validJumpdest destination frame) fun res log =>
      log = [] ∧ (env.Jumped frame res.2 ∧ res.2.pc = frame.pc) ∧
        (res.1 = true → env.Landing destination.uint64) := by
  have unchanged : env.Jumped frame frame := ⟨runner, rfl, rfl⟩
  unfold validJumpdest
  rw [get_bind]
  split
  · exact .of_eq rfl ⟨rfl, ⟨unchanged, rfl⟩, by simp⟩
  · next within =>
    split
    · exact .of_eq rfl ⟨rfl, ⟨unchanged, rfl⟩, by simp⟩
    · next jumpdest =>
      simp only [Bool.or_eq_true, Bool.not_eq_true', decide_eq_true_eq, not_or, not_le,
        runner.code] at within jumpdest
      apply (runs_isCode ranged within.2 runner).mono
      rintro ⟨_, _⟩ log ⟨unlogged, bits, trusted, rfl, unmarked⟩
      refine ⟨unlogged, ⟨⟨⟨runner.code, runner.codeHash, ?_⟩, rfl, rfl⟩, rfl⟩, ?_⟩
      · rintro other ⟨⟩
        exact trusted
      · intro isValid
        refine ⟨Nat.mod_lt _ (by decide), ?_, bits, trusted, unmarked isValid⟩
        rw [not_not, List.getD_eq_getElem?_getD, List.getElem?_eq_getElem within.2,
          Option.getD_some] at jumpdest
        rw [List.getElem?_eq_getElem within.2, jumpdest]

/-- The counter that `JUMP` leaves for a destination, one short of it. -/
@[irreducible]
def shortOf (position : Nat) : Nat :=
  (position + uint64Size - 1) % uint64Size

theorem shortOf_add_one (small : pos < uint64Size) : (shortOf pos + 1) % uint64Size = pos := by
  unfold shortOf uint64Size at *
  omega

theorem jumpTo_bind {Value : Type} (destination : Word) (next : Unit → Exec Value) (frame : Frame) :
    (jumpTo destination >>= next) frame =
      next () { frame with pc := shortOf destination.uint64 } := by
  unfold shortOf
  rfl

variable (ranged : env.Ranged)
include ranged

theorem runs_jumpTo (destination : Word) (old frame : Frame)
    (runner : env.Runner frame.contract) (gas : frame.contract.gas = old.contract.gas)
    (memory : frame.memory = old.memory) :
    env.Runs limit
      ((validJumpdest destination >>= fun valid =>
        if valid = true then jumpTo destination >>= fun _ => proceed
        else pure ([], some .invalidJump)) frame)
      fun res log =>
        log = [] ∧ env.Jumped old res.2 ∧ (res.1.2 = none →
            ∃ pos, env.Landing pos ∧ res.2.pc = shortOf pos) := by
  apply (runs_validJumpdest ranged destination runner).bind
  rintro valid new ⟨⟨jumped, -⟩, landing⟩
  have same : env.Jumped old new :=
    ⟨jumped.runner, jumped.gas.trans gas, jumped.memory.trans memory⟩
  cases valid with
  | true =>
    simp only [if_true, jumpTo_bind]
    exact .done ⟨rfl, same.withPc _, fun _ => ⟨destination.uint64, landing rfl, rfl⟩⟩
  | false => exact .done ⟨rfl, same, by simp⟩

variable (ovm : OVM)

theorem runs_opJump (enough : 1 ≤ frame.stack.length) (runner : env.Runner frame.contract) :
    env.Runs limit (opJump ovm frame) fun res log =>
      log = [] ∧ env.Jumped frame res.2 ∧ (res.1.2 = none →
          ∃ pos, env.Landing pos ∧ res.2.pc = shortOf pos) := by
  cases frame
  rcases exists_cons enough with ⟨destination, stack, rfl, -⟩
  unfold opJump
  split
  · exact .of_eq rfl ⟨rfl, ⟨runner, rfl, rfl⟩, by simp⟩
  · exact runs_jumpTo ranged destination _ _ runner rfl rfl

theorem runs_opJumpi (enough : 2 ≤ frame.stack.length) (runner : env.Runner frame.contract) :
    env.Runs limit (opJumpi ovm frame) fun res log =>
      log = [] ∧ env.Jumped frame res.2 ∧ (res.1.2 = none → res.2.pc = frame.pc ∨
          ∃ pos, env.Landing pos ∧ res.2.pc = shortOf pos) := by
  rcases frame with ⟨contract, pc, stack, memory, returnData, callGasTemp⟩
  rcases exists_two enough with ⟨destination, condition, stack, rfl, -⟩
  unfold opJumpi
  split
  · exact .of_eq rfl ⟨rfl, ⟨runner, rfl, rfl⟩, by simp⟩
  rw [pop_bind, pop_bind]
  split
  · exact .of_eq rfl ⟨rfl, ⟨runner, rfl, rfl⟩, fun _ => .inl rfl⟩
  refine (runs_jumpTo ranged destination
    ⟨contract, pc, destination :: condition :: stack, memory, returnData, callGasTemp⟩
    ⟨contract, pc, stack, memory, returnData, callGasTemp⟩ runner rfl rfl).mono ?_
  rintro res log ⟨unlogged, jumped, landed⟩
  exact ⟨unlogged, jumped, fun proceeds => .inr (landed proceeds)⟩

end Octopus
