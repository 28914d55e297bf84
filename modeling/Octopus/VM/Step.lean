import Octopus.VM.GasSpecs

/-!
# One round of the interpreter loop

Every round that goes on leaves less gas than before, even if all rounds of the frames that
it opened are counted, and the program counter on the next instruction or on a destination
that an analysis of the code allows.
-/

namespace Octopus

open Library Operation

variable {execute : Exec Outcome} {gas : Nat → GasExec Nat} {floor : Nat → Nat → Prop} {op : OpCode}
  {needed : Option Nat}
  {size pushes length offset pops cost outOffset outLength inOffset inLength : Nat}
  {new old : Frame} {first second outSize inSize input out : Word}

def opAt (code : Bytes) (pc : Nat) : OpCode :=
  match code[pc]? with
  | some byte => .ofByte byte
  | none => .stop

def OpCode.immediate : OpCode → Nat
  | push size => size
  | _ => 0

def OpCode.calls : OpCode → Bool
  | call => true
  | callcode => true
  | delegatecall => true
  | staticcall => true
  | _ => false

def OpCode.calm : OpCode → Bool
  | push _ => false
  | jump => false
  | jumpi => false
  | _ => true

namespace Setting

variable (setting : Setting)

def Flow (pc next : Nat) : Prop :=
  opAt setting.code pc ≠ .jump ∧
      next = (pc + (opAt setting.code pc).immediate + 1) % uint64Size ∨
    (opAt setting.code pc = .jump ∨ opAt setting.code pc = .jumpi) ∧ setting.Landing next

structure Ready (frame : Frame) : Prop where
  runner : setting.Runner frame.contract
  fits : frame.memory.Fits
  gas : setting.Metered → frame.contract.gas < uint64Size

def Provided (op : OpCode) : Prop :=
  setting.Lenient ∨
    (op = .basefee → setting.ovm.context.baseFee.isSome = true) ∧
      (op = .chainid → setting.ovm.chainConfig.chainID.isSome = true)

def Tempered (frame : Frame) : Prop :=
  setting.Metered → (opAt setting.code frame.pc).calls = true →
    ∀ requested, frame.stack[0]? = some requested → setting.Modest requested

structure Advances (before after : Frame) (log : List Round) : Prop where
  ready : setting.Ready after
  flow : setting.Flow before.pc after.pc
  gas : setting.Metered → after.contract.gas + log.length + 1 ≤ before.contract.gas

def StepEnds (before : Frame) (result : Option Outcome × Frame) (log : List Round) : Prop :=
  match result.1 with
  | none => setting.Advances before result.2 log
  | some _ => setting.Metered → result.2.contract.gas + log.length ≤ before.contract.gas

def Steps [Crypto] (limit : Nat) (frame : Frame) : Prop :=
  setting.Runs limit (stepInstruction setting.ovm setting.level frame) (setting.StepEnds frame)

end Setting

def Frame.following (frame : Frame) : Frame :=
  { frame with pc := (frame.pc + 1) % uint64Size }

def Frame.spend (frame : Frame) (gas : Nat) : Frame :=
  { frame with contract := { frame.contract with gas := frame.contract.gas - gas } }

def Setting.Executed (setting : Setting) (before : Frame) (result : Outcome × Frame)
    (log : List Round) : Prop :=
  match result.1.2 with
  | none => setting.Advances before result.2.following log
  | some _ => setting.Metered → result.2.contract.gas + log.length ≤ before.contract.gas

/-- A frame whose next instruction has been charged for and has its memory. -/
structure Frame.Charged (frame : Frame) (needed : Option Nat) (floor : Nat → Nat → Prop)
    (charged : Frame) : Prop where
  frame : ∃ gas memory passed price,
    charged = ⟨{ frame.contract with gas := gas }, frame.pc, frame.stack, memory,
      frame.returnData, passed⟩ ∧
    gas + price ≤ frame.contract.gas ∧ floor passed price ∧ memory.Fits ∧
    ∃ size, needed = some size ∧ size ≤ memory.store.length

def Setting.Charges (setting : Setting) (limit : Nat) (operation : Operation)
    (needed : Option Nat) (floor : Nat → Nat → Prop) (frame : Frame) : Prop :=
  setting.Runs limit (chargeDynamic operation frame) fun result log =>
    log = [] ∧
      match result.1 with
      | some _ => result.2.contract.gas ≤ frame.contract.gas
      | none => frame.Charged needed floor result.2

theorem toWordSize_covers {memorySize : Nat}
    (expanded : safeMul (toWordSize size) 32 = some memorySize) : size ≤ memorySize := by
  unfold safeMul at expanded
  split at expanded
  · next small =>
    cases expanded
    unfold toWordSize uint64Size at *
    split at small <;> split <;> omega
  · cases expanded

theorem Memory.length_resize (memory : Memory) (size : Nat) :
    (memory.resize size).store.length = max memory.store.length size := by
  simp only [Memory.resize, List.length_append, List.length_replicate]
  omega

theorem Memory.resize_fits (memory : Memory) (lengthBound : memory.store.length ≤ memoryLimit)
    (sizeBound : size ≤ memoryLimit)
    (charged : memory.lastGasCost = memoryFee (toWordSize (max memory.store.length size))) :
    (if size > 0 then memory.resize size else memory).Fits ∧
      size ≤ (if size > 0 then memory.resize size else memory).store.length := by
  split
  · have length := memory.length_resize size
    refine ⟨⟨?_, ?_⟩, ?_⟩
    · rw [length]
      exact max_le lengthBound sizeBound
    · rw [length]
      exact charged
    · rw [length]
      exact le_max_right _ _
  · next none =>
    have zero : size = 0 := by omega
    subst zero
    refine ⟨⟨lengthBound, ?_⟩, Nat.zero_le _⟩
    simpa only [Nat.max_zero] using charged

section

variable {env : Setting} {limit : Nat} {frame : Frame} {operation : Operation}

theorem requiredMemory_run
    (sized : (match operation.memorySize with
      | none => Interaction.done (some 0, frame)
      | some size => size frame) = .done (needed, frame)) :
    (∃ err, (requiredMemory operation).run frame = .done (.error err, frame)) ∨
      ∃ memorySize, (requiredMemory operation).run frame = .done (.ok memorySize, frame) ∧
        (operation.memorySize = none → memorySize = 0) ∧
        ∃ size, needed = some size ∧ size ≤ memorySize := by
  unfold requiredMemory
  cases known : operation.memorySize with
  | none =>
    rw [known] at sized
    cases sized
    exact .inr ⟨0, rfl, fun _ => rfl, 0, rfl, le_rfl⟩
  | some =>
    rw [known] at sized
    rw [gas_bind_ok (gas_lift sized)]
    cases needed with
    | none => exact .inl ⟨_, gas_bind_error (gas_orOverflow _ none)⟩
    | some size =>
      rw [gas_bind_ok (gas_orOverflow _ (some size)), gas_orOverflow]
      cases expanded : safeMul (toWordSize size) 32 with
      | none => exact .inl ⟨_, rfl⟩
      | some memorySize =>
        exact .inr ⟨memorySize, rfl, by simp, size, rfl, toWordSize_covers expanded⟩

theorem runs_chargeDynamic (frame : Frame) (fits : frame.memory.Fits)
    (priced : operation.dynamicGas = some gas) (sized : (match operation.memorySize with
      | none => Interaction.done (some 0, frame)
      | some size => size frame) = .done (needed, frame))
    (quotes : ∀ memorySize, (operation.memorySize = none → memorySize = 0) →
      env.Quotes limit memorySize floor (gas memorySize) frame) :
    env.Charges limit operation needed floor frame := by
  unfold Setting.Charges chargeDynamic
  rw [priced]
  change env.Runs limit (((requiredMemory operation).run frame).andThen _) _
  rcases requiredMemory_run sized with ⟨err, ran⟩ | ⟨memorySize, ran, unsized, size, isSize, covers⟩
  · rw [ran]
    exact .done ⟨rfl, le_rfl⟩
  rw [ran]
  apply (quotes memorySize unsized).bind
  rintro quote new quoted
  cases quote with
  | error => exact .done ⟨rfl, quoted⟩
  | ok price =>
    rcases quoted with ⟨sizeBound, gas, lastGasCost, passed, rfl, less, charged, floored⟩
    dsimp only
    rw [useGas_bind]
    by_cases short : (frame.quote gas lastGasCost passed).contract.gas < price
    · rw [if_pos short]
      exact .done ⟨rfl, less⟩
    rw [if_neg short]
    have expands := Memory.resize_fits ⟨frame.memory.store, lastGasCost⟩ fits.length_le sizeBound
      charged
    have spent : gas - price + price ≤ frame.contract.gas := by
      change ¬ gas < price at short
      omega
    by_cases grows : memorySize > 0
    all_goals
      simp only [grows] at expands ⊢
      exact .of_eq rfl ⟨rfl, gas - price, _, passed, price, rfl, spent, floored, expands.1, size,
        isSize, covers.trans expands.2⟩

section

variable [Crypto]

theorem runs_stepInstruction (needed : Option Nat) (floor : Nat → Nat → Prop)
    (ready : env.Ready frame)
    (table : instructionSet env.ovm env.level (opAt env.code frame.pc) = operation)
    (charges : operation.minStack ≤ frame.stack.length →
      env.Charges limit operation needed floor (frame.spend operation.constantGas))
    (executes : operation.minStack ≤ frame.stack.length →
      operation.constantGas ≤ frame.contract.gas → ∀ charged,
        (frame.spend operation.constantGas).Charged needed floor charged →
          env.Runs limit (operation.execute charged) (env.Executed frame)) :
    env.Steps limit frame := by
  have fetched : instructionSet env.ovm env.level (frame.contract.getOp frame.pc) = operation := by
    rw [← table, ← ready.runner.code]
    rfl
  have stopped : ∀ outcome : Outcome, env.StepEnds frame (some outcome, frame) [] :=
    fun outcome metered => le_rfl
  unfold Setting.Steps stepInstruction
  rw [get_bind, fetched]
  by_cases underflows : frame.stack.length < operation.minStack
  · rw [if_pos underflows]
    exact .done (stopped _)
  rw [if_neg underflows]
  by_cases overflows : frame.stack.length > operation.maxStack
  · rw [if_pos overflows]
    exact .done (stopped _)
  rw [if_neg overflows, useGas_bind]
  by_cases poor : frame.contract.gas < operation.constantGas
  · rw [if_pos poor]
    exact .done (stopped _)
  rw [if_neg poor, if_pos rfl]
  have enough := not_lt.mp underflows
  have affordable := not_lt.mp poor
  apply (charges enough).bind
  rintro err charged chargedFor
  cases err with
  | some =>
    intro _
    exact le_trans chargedFor (Nat.sub_le _ _)
  | none =>
    apply Interaction.Meets.andThen (executes enough affordable charged chargedFor)
    rintro ⟨⟨res, err⟩, new⟩ log executed
    cases err with
    | none =>
      change env.StepEnds frame (none, new.following) (log ++ [])
      rw [List.append_nil]
      exact executed
    | some err =>
      change env.StepEnds frame (some (res, some err), new) (log ++ [])
      rw [List.append_nil]
      exact executed

end

theorem Setting.Runner.withGas {contract : Contract} (runner : env.Runner contract) (gas : Nat) :
    env.Runner { contract with gas := gas } :=
  ⟨runner.code, runner.codeHash, runner.analysis⟩

theorem Setting.Runner.alike (runner : env.Runner old.contract)
    (alike : old.Alike new) : env.Runner new.contract := by
  rw [alike.contract]
  exact runner.withGas _

theorem Memory.Fits.alike (fits : old.memory.Fits) (alike : old.Alike new) : new.memory.Fits := by
  refine ⟨alike.length.trans_le fits.length_le, ?_⟩
  rw [alike.length, alike.lastGasCost]
  exact fits.lastGasCost_eq

/-- An instruction that keeps code and memory and uses some gas only has to place the counter. -/
theorem executed_of_less {outcome : Outcome} {log : List Round} (ready : env.Ready frame)
    (runner : env.Runner new.contract) (fits : new.memory.Fits)
    (less : env.Metered → new.contract.gas + log.length + 1 ≤ frame.contract.gas)
    (flow : outcome.2 = none → env.Flow frame.pc ((new.pc + 1) % uint64Size)) :
    env.Executed frame (outcome, new) log := by
  rcases outcome with ⟨_, err⟩
  cases err with
  | some =>
    intro metered
    exact Nat.le_of_succ_le (less metered)
  | none =>
    refine ⟨⟨runner, fits, ?_⟩, flow rfl, less⟩
    intro metered
    exact (Nat.lt_of_le_of_lt (Nat.le_add_right _ _) (less metered)).trans (ready.gas metered)

theorem Setting.Flow.calm {pc : Nat} (calm : (opAt env.code pc).calm = true) :
    env.Flow pc ((pc + 1) % uint64Size) := by
  generalize known : opAt env.code pc = op at calm
  have still : op.immediate = 0 ∧ op ≠ .jump := by
    cases op <;> first | cases calm; done | exact ⟨rfl, by simp⟩
  refine .inl ⟨?_, ?_⟩
  · rw [known]
    exact still.2
  · rw [known, still.1, Nat.add_zero]

section

variable {needed : Option Nat} {floor : Nat → Nat → Prop} {constantGas : Nat} {charged : Frame}
  {execute : Exec Outcome}

theorem executed_of_alike (ready : env.Ready frame)
    (calm : (opAt env.code frame.pc).calm = true)
    (chargedFor : (frame.spend constantGas).Charged needed floor charged)
    (runs : env.Runs limit (execute charged) fun result log =>
      charged.Alike result.2 ∧ (env.Metered →
          result.2.contract.gas + log.length + 1 ≤ frame.contract.gas)) :
    env.Runs limit (execute charged) (env.Executed frame) := by
  rcases chargedFor with ⟨gas, _, _, _, rfl, -, -, fits, -⟩
  apply runs.mono
  rintro ⟨_, _⟩ log ⟨alike, less⟩
  refine executed_of_less ready ((ready.runner.withGas gas).alike alike) (fits.alike alike) less
    fun _ => ?_
  rw [alike.pc]
  exact .calm calm

theorem paid_constant (positive : 1 ≤ constantGas) (passed price : Nat)
    (_ : floor passed price) : 1 ≤ constantGas + price :=
  Nat.le_add_right_of_le positive

theorem executed_of_tame (ready : env.Ready frame)
    (calm : (opAt env.code frame.pc).calm = true) (affordable : constantGas ≤ frame.contract.gas)
    (chargedFor : (frame.spend constantGas).Charged needed floor charged)
    (paid : ∀ passed price, floor passed price → 1 ≤ constantGas + price)
    (tame : env.Tame limit execute charged) :
    env.Runs limit (execute charged) (env.Executed frame) := by
  apply executed_of_alike ready calm chargedFor
  rcases chargedFor with ⟨gas, _, passed, price, rfl, spent, floored, -, -⟩
  apply tame.mono
  rintro ⟨_, new⟩ log ⟨rfl, same, alike⟩
  refine ⟨alike, fun _ => ?_⟩
  have positive := paid passed price floored
  change gas + price ≤ frame.contract.gas - constantGas at spent
  change new.contract.gas = gas at same
  simp only [List.length_nil]
  omega

theorem executed_of_final (chargedFor : (frame.spend constantGas).Charged needed floor charged)
    (final : env.Final limit execute charged) :
    env.Runs limit (execute charged) (env.Executed frame) := by
  rcases chargedFor with ⟨gas, _, _, price, rfl, spent, -, -, -⟩
  apply final.mono
  rintro ⟨⟨_, err⟩, new⟩ log ⟨rfl, same, ended⟩
  cases err with
  | none => exact absurd rfl ended
  | some =>
    intro _
    change gas + price ≤ frame.contract.gas - constantGas at spent
    change new.contract.gas = gas at same
    simp only [List.length_nil]
    omega

end

section

variable {op : OpCode} {pops pushes cost : Nat} {execute : Exec Outcome}

theorem charges_plain (fits : frame.memory.Fits) :
    env.Charges limit (.plain pops pushes cost execute) (some 0) (atLeast 0) (frame.spend cost) :=
  .of_eq rfl ⟨rfl, _, _, _, 0, rfl, le_rfl, Nat.zero_le _, fits, 0, rfl, Nat.zero_le _⟩

variable [Crypto] (ready : env.Ready frame) (known : opAt env.code frame.pc = op)
include ready known

theorem runs_plain (calm : op.calm = true)
    (table : instructionSet env.ovm env.level op = .plain pops pushes cost execute)
    (positive : 1 ≤ cost)
    (tame : ∀ charged, pops ≤ charged.stack.length → env.Tame limit execute charged) :
    env.Steps limit frame := by
  subst known
  apply runs_stepInstruction (some 0) (atLeast 0) ready table (fun _ => charges_plain ready.fits)
  intro enough affordable charged chargedFor
  refine executed_of_tame ready calm affordable chargedFor (paid_constant positive)
    (tame charged ?_)
  rcases chargedFor with ⟨_, _, _, _, rfl, -⟩
  exact enough

theorem runs_withGas (calm : op.calm = true) (table : instructionSet env.ovm env.level op =
      (plain pops pushes cost execute).withGas gas)
    (paid : ∀ passed price, floor passed price → 1 ≤ cost + price)
    (quotes : ∀ priced : Frame, priced.memory.Fits → pops ≤ priced.stack.length →
      env.Quotes limit 0 floor (gas 0) priced)
    (tame : ∀ charged, pops ≤ charged.stack.length → env.Tame limit execute charged) :
    env.Steps limit frame := by
  subst known
  refine runs_stepInstruction (some 0) floor ready table ?_ ?_
  · intro enough
    apply runs_chargeDynamic (frame.spend cost) ready.fits rfl rfl
    rintro memorySize unsized
    cases unsized rfl
    exact quotes _ ready.fits enough
  · intro enough affordable charged chargedFor
    refine executed_of_tame ready calm affordable chargedFor paid (tame charged ?_)
    rcases chargedFor with ⟨gas, memory, passed, price, rfl, -⟩
    exact enough

theorem runs_withMemory {size : Exec (Option Nat)}
    (table : instructionSet env.ovm env.level op =
      (plain pops pushes cost execute).withMemory size gas)
    (sized : pops ≤ frame.stack.length → size (frame.spend cost) = .done (needed, frame.spend cost))
    (quotes : ∀ memorySize, pops ≤ frame.stack.length →
      env.Quotes limit memorySize floor (gas memorySize) (frame.spend cost))
    (executes : pops ≤ frame.stack.length → cost ≤ frame.contract.gas → ∀ charged,
      (frame.spend cost).Charged needed floor charged →
        env.Runs limit (execute charged) (env.Executed frame)) : env.Steps limit frame := by
  subst known
  apply runs_stepInstruction needed floor ready table _ executes
  intro enough
  exact runs_chargeDynamic (frame.spend cost) ready.fits rfl (sized enough) fun memorySize _ =>
    quotes memorySize enough

theorem runs_of_enough (table : instructionSet env.ovm env.level op = operation)
    (runs : operation.minStack ≤ frame.stack.length → env.Steps limit frame) :
    env.Steps limit frame := by
  subst known
  by_cases enough : operation.minStack ≤ frame.stack.length
  · exact runs enough
  · exact runs_stepInstruction none (atLeast 0) ready table
      (fun impossible => absurd impossible enough)
      fun impossible => absurd impossible enough

end

theorem memoryRegion_run (foundFirst : frame.stack[offset]? = some first)
    (foundSecond : frame.stack[length]? = some second) :
    memoryRegion offset length frame = .done (calcMemSize64 first second, frame) := by
  unfold memoryRegion
  rw [back_bind frame foundFirst, back_bind frame foundSecond]
  rfl

theorem memoryFixed_run (found : frame.stack[offset]? = some first) :
    memoryFixed offset length frame = .done (calcMemSize64WithUint first length, frame) := by
  unfold memoryFixed
  rw [back_bind frame found]
  rfl

def regionsNeeded (output input : Option Nat) : Option Nat :=
  match output, input with
  | some x, some y => some (max x y)
  | _, _ => none

theorem memoryRegions_run (foundOut : frame.stack[outOffset]? = some out)
    (foundOutSize : frame.stack[outLength]? = some outSize)
    (foundIn : frame.stack[inOffset]? = some input)
    (foundInSize : frame.stack[inLength]? = some inSize) :
    memoryRegions outOffset outLength inOffset inLength frame =
      .done (regionsNeeded (calcMemSize64 out outSize) (calcMemSize64 input inSize), frame) := by
  unfold memoryRegions
  rw [back_bind frame foundOut, back_bind frame foundOutSize]
  cases calcMemSize64 out outSize with
  | none => rfl
  | some =>
    dsimp only
    rw [back_bind frame foundIn, back_bind frame foundInSize]
    cases calcMemSize64 input inSize <;> rfl

theorem regionsNeeded_eq_some {output input : Option Nat}
    (needed : regionsNeeded output input = some size) :
    ∃ x y, output = some x ∧ input = some y ∧ x ≤ size ∧ y ≤ size := by
  cases output with
  | none => cases needed
  | some x =>
    cases input with
    | none => cases needed
    | some y =>
      cases needed
      exact ⟨x, y, rfl, rfl, le_max_left _ _, le_max_right _ _⟩

end

variable [Crypto] {env : Setting} {contract : Contract} {pc : Nat} {stack : List Word}
  {memory : Memory} {returnData : Bytes} {callGasTemp : Nat} {limit : Nat} {frame : Frame}

section

variable (ready : env.Ready frame) (known : opAt env.code frame.pc = op)
include ready known

theorem runs_region
    (table : instructionSet env.ovm env.level op =
      (plain pops pushes cost execute).withMemory (memoryRegion offset length) gas)
    (foundFirst : frame.stack[offset]? = some first)
    (foundSecond : frame.stack[length]? = some second) (quotes : ∀ memorySize,
      env.Quotes limit memorySize floor (gas memorySize) (frame.spend cost))
    (executes : cost ≤ frame.contract.gas → ∀ gas memory passed price,
      gas + price ≤ frame.contract.gas - cost → floor passed price → memory.Fits →
      second.toNat < uint64Size → Covers memory.store first.toNat second.toNat →
      (frame.spend cost).Charged (calcMemSize64 first second) floor
        ⟨{ frame.contract with gas := gas }, frame.pc, frame.stack, memory, frame.returnData,
          passed⟩ →
        env.Runs limit (execute ⟨{ frame.contract with gas := gas }, frame.pc, frame.stack,
          memory, frame.returnData, passed⟩) (env.Executed frame)) :
    env.Steps limit frame := by
  apply runs_withMemory ready known table
  · intro _
    exact memoryRegion_run foundFirst foundSecond
  · intro memorySize _
    exact quotes memorySize
  · intro _ affordable _ chargedFor
    have kept := chargedFor
    rcases chargedFor with ⟨gas, memory, passed, price, rfl, spent, floored, fits, _, needed, le⟩
    have covers := calcMemSize64_eq_some needed le
    exact executes affordable gas memory passed price spent floored fits covers.1 covers.2 kept

theorem runs_fixed {offset : Word} (calm : op.calm = true)
    (table : instructionSet env.ovm env.level op =
      (plain pops pushes cost execute).withMemory (memoryFixed 0 length)
        pureMemoryGascost) (positive : 1 ≤ cost) (nonempty : length ≠ 0)
    (found : frame.stack[0]? = some offset)
    (tame : ∀ (contract : Contract) memory passed, memory.Fits → offset.toNat < uint64Size →
      offset.toNat + length ≤ memory.store.length →
        env.Tame limit execute
          ⟨contract, frame.pc, frame.stack, memory, frame.returnData, passed⟩) :
    env.Steps limit frame := by
  apply runs_withMemory ready known table
  · intro _
    exact memoryFixed_run found
  · intro _ _
    exact quotes_memoryGasCost ready.fits
  · intro _ affordable _ chargedFor
    have kept := chargedFor
    rcases chargedFor with ⟨_, memory, passed, _, rfl, _, _, fits, _, needed, le⟩
    rcases calcMemSize64WithUint_eq_some nonempty needed with ⟨small, rfl⟩
    exact executed_of_tame ready (known ▸ calm) affordable kept (paid_constant positive)
      (tame _ memory passed fits small le)

/-- What a call hands out is covered by its dynamic price; the constant price is lost. -/
theorem runs_calling {oldCalculator : Nat → GasExec Nat} {surcharge : Nat} {handed : Nat → Nat}
    {address : Word} (calm : op.calm = true) (expensive : 2 ≤ cost)
    (table : instructionSet env.ovm env.level op =
      (plain pops pushes cost execute).withMemory
        (memoryRegions outOffset outLength inOffset inLength)
        (makeCallVariantGasCallEIP2929 oldCalculator))
    (foundAddress : frame.stack[1]? = some address) (foundOut : frame.stack[outOffset]? = some out)
    (foundOutSize : frame.stack[outLength]? = some outSize)
    (foundIn : frame.stack[inOffset]? = some input)
    (foundInSize : frame.stack[inLength]? = some inSize)
    (covered : ∀ passed, handed passed ≤ passed + surcharge)
    (old : ∀ (priced : Frame) memorySize, priced.memory.Fits → priced.stack = frame.stack →
      env.Quotes frame.contract.gas memorySize
        (env.callFloor priced.contract.gas surcharge) (oldCalculator memorySize) priced)
    (spends : ∀ (contract : Contract) memory passed, memory.Fits →
      Covers memory.store out.toNat outSize.toNat → Covers memory.store input.toNat inSize.toNat →
      (env.Metered → handed passed + 1 ≤ frame.contract.gas) →
        env.Spends frame.contract.gas (handed passed) execute
          ⟨contract, frame.pc, frame.stack, memory, frame.returnData, passed⟩) :
    env.Steps frame.contract.gas frame := by
  apply runs_withMemory ready known table
  · intro _
    exact memoryRegions_run foundOut foundOutSize foundIn foundInSize
  · intro memorySize _
    refine quotes_callCovered (fun metered => ?_) foundAddress fun gas _ =>
      old _ memorySize ready.fits rfl
    exact lt_of_le_of_lt (Nat.sub_le _ _) (ready.gas metered)
  · intro _ _ _ chargedFor
    apply executed_of_alike ready (known ▸ calm) chargedFor
    rcases chargedFor with ⟨gas, memory, passed, price, rfl, spent, floored, fits, _, needed, le⟩
    rcases regionsNeeded_eq_some needed with ⟨_, _, needsOut, needsIn, outLe, inLe⟩
    have coversOut := (calcMemSize64_eq_some needsOut (outLe.trans le)).2
    have coversIn := (calcMemSize64_eq_some needsIn (inLe.trans le)).2
    change gas + price ≤ frame.contract.gas - cost at spent
    have bound := covered passed
    refine (spends _ memory passed fits coversOut coversIn ?_).mono ?_
    · intro metered
      have := floored metered
      omega
    · rintro ⟨_, new⟩ log ⟨alike, less⟩
      refine ⟨alike, fun metered => ?_⟩
      have left : new.contract.gas + log.length ≤ gas + handed passed + 1 := less metered
      have := floored metered
      change new.contract.gas + log.length + 1 ≤ _
      omega

end

omit [Crypto] in
theorem withStipend_le (value : Word) (passed : Nat) :
    withStipend passed value ≤ passed + surcharge value := by
  unfold withStipend surcharge
  by_cases zero : value = 0
  · simp [zero]
  · rw [if_neg zero, if_pos zero]
    refine (Nat.mod_le _ _).trans (Nat.add_le_add_left ?_ _)
    decide

section

variable (ready : env.Ready frame)
include ready

theorem runs_creating {offset size : Word} (known : opAt env.code frame.pc = op)
    (calm : op.calm = true) (expensive : 2 ≤ cost)
    (table : instructionSet env.ovm env.level op =
      (plain pops pushes cost execute).withMemory (memoryRegion 1 2) gas)
    (foundOffset : frame.stack[1]? = some offset) (foundSize : frame.stack[2]? = some size)
    (quotes : ∀ memorySize, env.Quotes frame.contract.gas memorySize (atLeast 0)
      (gas memorySize) (frame.spend cost))
    (spends : ∀ (contract : Contract) memory passed, memory.Fits →
      Covers memory.store offset.toNat size.toNat →
      (env.Metered → contract.gas + 1 ≤ frame.contract.gas) →
        env.Spends frame.contract.gas 0 execute
          ⟨contract, frame.pc, frame.stack, memory, frame.returnData, passed⟩) :
    env.Steps frame.contract.gas frame := by
  apply runs_region ready known table foundOffset foundSize quotes
  intro _ gas memory passed _ _ _ fits _ covers chargedFor
  apply executed_of_alike ready (known ▸ calm) chargedFor
  refine (spends _ memory passed fits covers fun _ => ?_).mono ?_
  · change gas + 1 ≤ frame.contract.gas
    omega
  · rintro ⟨_, new⟩ log ⟨alike, less⟩
    refine ⟨alike, fun metered => ?_⟩
    have left : new.contract.gas + log.length ≤ gas + 0 + 1 := less metered
    change new.contract.gas + log.length + 1 ≤ _
    omega

theorem runs_pushing (known : opAt env.code frame.pc = .push size) : env.Steps limit frame := by
  refine runs_stepInstruction (some 0) (atLeast 0) ready (by rw [known]; rfl)
    (fun _ => charges_plain ready.fits) ?_
  intro _ affordable _ chargedFor
  change gasFastestStep ≤ frame.contract.gas at affordable
  rcases chargedFor with ⟨gas, _, _, price, rfl, spent, -, fits, -⟩
  apply (runs_push size).mono
  rintro ⟨_, new⟩ log ⟨rfl, sameContract, sameMemory, moved⟩
  change gas + price ≤ frame.contract.gas - gasFastestStep at spent
  refine executed_of_less ready ?_ ?_ (fun _ => ?_) fun _ => .inl ⟨by simp [known], ?_⟩
  · rw [sameContract]
    exact ready.runner.withGas gas
  · rw [sameMemory]
    exact fits
  · rw [sameContract]
    change gas + 0 + 1 ≤ frame.contract.gas
    unfold gasFastestStep at *
    omega
  · change new.pc = (frame.pc + size) % uint64Size at moved
    rw [moved, known, OpCode.immediate, Nat.mod_add_mod]

theorem runs_jumping (known : opAt env.code frame.pc = op) (jumps : op = .jump ∨ op = .jumpi)
    (positive : 1 ≤ cost)
    (table : instructionSet env.ovm env.level op = .plain pops 0 cost execute)
    (executes : ∀ jumping : Frame, pops ≤ jumping.stack.length → env.Runner jumping.contract →
      env.Runs limit (execute jumping) fun result log =>
        log = [] ∧ env.Jumped jumping result.2 ∧
          (result.1.2 = none → op = .jumpi ∧ result.2.pc = jumping.pc ∨
            ∃ pos, env.Landing pos ∧ result.2.pc = shortOf pos)) : env.Steps limit frame := by
  refine runs_stepInstruction (some 0) (atLeast 0) ready (by rw [known]; exact table)
    (fun _ => charges_plain ready.fits) ?_
  intro enough affordable _ chargedFor
  change cost ≤ frame.contract.gas at affordable
  rcases chargedFor with ⟨gas, memory, passed, price, rfl, spent, -, fits, -⟩
  change gas + price ≤ frame.contract.gas - cost at spent
  have ran := executes ⟨{ frame.contract with gas := gas }, frame.pc, frame.stack, memory,
    frame.returnData, passed⟩ enough (ready.runner.withGas gas)
  apply ran.mono
  rintro ⟨_, new⟩ log ⟨rfl, jumped, landed⟩
  have same : new.contract.gas = gas := jumped.gas
  refine executed_of_less ready jumped.runner ?_ (fun _ => ?_) fun proceeds => ?_
  · rw [jumped.memory]
    exact fits
  · change new.contract.gas + 0 + 1 ≤ frame.contract.gas
    omega
  · rcases landed proceeds with ⟨rfl, stayed⟩ | ⟨pos, landing, moved⟩
    · refine .inl ⟨by simp [known], ?_⟩
      rw [known, stayed]
      rfl
    · refine .inr ⟨by rwa [known], ?_⟩
      rw [moved, shortOf_add_one landing.small]
      exact landing

end

omit [Crypto] in
theorem ofPlainByte_ne_dup (number pos : Nat) : OpCode.ofPlainByte number ≠ .dup pos := by
  unfold OpCode.ofPlainByte
  split <;> simp

omit [Crypto] in
theorem opAt_dup {code : Bytes} {pos : Nat} (known : opAt code pc = .dup pos) : 1 ≤ pos := by
  unfold opAt at known
  split at known
  · next byte _ =>
    unfold OpCode.ofByte at known
    dsimp only at known
    split_ifs at known
    · injection known with same
      omega
    · exact absurd known (ofPlainByte_ne_dup _ _)
  · cases known

section

variable (ready : env.Ready frame)
include ready

theorem runs_final (known : opAt env.code frame.pc = op)
    (table : instructionSet env.ovm env.level op = .plain pops pushes cost execute)
    (final : ∀ charged : Frame, charged.contract.code = env.code → charged.pc = frame.pc →
      env.Final limit execute charged) : env.Steps limit frame := by
  subst known
  apply runs_stepInstruction (some 0) (atLeast 0) ready table (fun _ => charges_plain ready.fits)
  intro _ _ charged chargedFor
  apply executed_of_final chargedFor
  rcases chargedFor with ⟨_, _, _, _, rfl, -⟩
  exact final _ ready.runner.code rfl

theorem runs_keccak256 (known : opAt env.code frame.pc = .keccak256) : env.Steps limit frame := by
  refine runs_of_enough ready known rfl fun enough => ?_
  cases frame
  rcases exists_two enough with ⟨_, _, _, rfl, -⟩
  apply runs_region ready known rfl rfl rfl
  · intro _
    exact quotes_memoryWordGas ready.fits (Nat.lt_of_succ_le enough)
  · intro affordable _ _ _ _ _ _ fits _ covers chargedFor
    exact executed_of_tame ready (known ▸ rfl) affordable chargedFor
      (paid_constant (by decide)) (tame_opKeccak256 fits covers _)

theorem runs_copying (known : opAt env.code frame.pc = op)
    (copies : op = .calldatacopy ∨ op = .codecopy ∨ op = .returndatacopy) :
    env.Steps limit frame := by
  rcases copies with rfl | rfl | rfl
  all_goals
    refine runs_of_enough ready known rfl fun enough => ?_
    cases frame
    rcases exists_three enough with ⟨_, _, _, _, rfl, -⟩
    apply runs_region ready known rfl rfl rfl fun _ =>
      quotes_memoryWordGas ready.fits (Nat.lt_of_succ_le enough)
    intro affordable _ _ _ _ _ _ fits small covers chargedFor
    apply executed_of_tame ready (known ▸ rfl) affordable chargedFor
      (paid_constant (by decide))
  · exact tame_opCallDataCopy fits covers
  · exact tame_opCodeCopy fits covers
  · exact tame_opReturnDataCopy fits covers small

theorem runs_extcodecopy (known : opAt env.code frame.pc = .extcodecopy) :
    env.Steps limit frame := by
  refine runs_of_enough ready known rfl fun enough => ?_
  cases frame
  rcases exists_two enough with ⟨_, _, stack, rfl, twoMore⟩
  rcases exists_two twoMore with ⟨_, _, stack, rfl, -⟩
  apply runs_region ready known rfl rfl rfl
  · intro _
    exact quotes_gasExtCodeCopyEIP2929 ready.fits (Nat.lt_of_succ_le enough)
  · intro affordable _ _ _ _ _ _ fits _ covers chargedFor
    exact executed_of_tame ready (known ▸ rfl) affordable chargedFor
      (paid_constant (by decide)) (tame_opExtCodeCopy fits covers)

theorem runs_mload (known : opAt env.code frame.pc = .mload) : env.Steps limit frame := by
  refine runs_of_enough ready known rfl fun enough => ?_
  cases frame
  rcases exists_cons enough with ⟨_, _, rfl, -⟩
  apply runs_fixed ready known rfl rfl (by decide) (by decide) rfl
  intro _ _ _ fits _ inside
  exact tame_opMload fits inside

theorem runs_mstore (known : opAt env.code frame.pc = op)
    (stores : op = .mstore ∨ op = .mstore8) : env.Steps limit frame := by
  rcases stores with rfl | rfl
  all_goals
    refine runs_of_enough ready known rfl fun enough => ?_
    cases frame
    rcases exists_two enough with ⟨_, _, _, rfl, -⟩
    apply runs_fixed ready known rfl rfl (by decide) (by decide) rfl
    intro _ _ _ fits small inside
  · exact tame_opMstore fits small inside
  · exact tame_opMstore8 small inside

theorem runs_log {topics : Nat} (known : opAt env.code frame.pc = .log topics) :
    env.Steps limit frame := by
  refine runs_of_enough ready known rfl fun enough => ?_
  rcases frame with ⟨_, _, stack, _, _, _⟩
  rcases exists_two enough with ⟨offset, size, stack, rfl, left⟩
  apply runs_region ready known rfl rfl rfl
  · intro _
    exact quotes_makeGasLog ready.fits (by change 1 < (offset :: size :: stack).length; simp)
  · intro affordable _ _ _ _ _ _ fits _ covers chargedFor
    exact executed_of_tame ready (known ▸ rfl) affordable chargedFor
      (fun _ _ least => Nat.le_add_left_of_le least) (tame_makeLog fits covers _ left)

theorem runs_ending (known : opAt env.code frame.pc = op)
    (ends : op = .ret ∨ op = .revert) : env.Steps limit frame := by
  rcases ends with rfl | rfl
  all_goals
    refine runs_of_enough ready known rfl fun enough => ?_
    cases frame
    rcases exists_two enough with ⟨_, _, _, rfl, -⟩
    apply runs_region ready known rfl rfl rfl fun _ => quotes_memoryGasCost ready.fits
    intro _ _ _ _ _ _ _ fits _ covers chargedFor
    apply executed_of_final chargedFor
  · exact final_opReturn fits covers
  · exact final_opRevert fits covers

theorem runs_create (known : opAt env.code frame.pc = .create) :
    env.Steps frame.contract.gas frame := by
  refine runs_of_enough ready known rfl fun enough => ?_
  cases frame
  rcases exists_three enough with ⟨_, _, _, _, rfl, -⟩
  apply runs_creating ready known rfl (by decide) rfl rfl rfl
  · intro _
    exact quotes_memoryGasCost ready.fits
  · intro contract _ _ fits covers room
    exact spends_opCreate fits covers room

theorem runs_create2 (known : opAt env.code frame.pc = .create2) :
    env.Steps frame.contract.gas frame := by
  refine runs_of_enough ready known rfl fun enough => ?_
  cases frame
  rcases exists_two enough with ⟨_, _, stack, rfl, twoMore⟩
  rcases exists_two twoMore with ⟨_, _, stack, rfl, -⟩
  apply runs_creating ready known rfl (by decide) rfl rfl rfl
  · intro _
    exact quotes_memoryWordGas ready.fits (by simp [Frame.spend])
  · intro contract _ _ fits covers room
    exact spends_opCreate2 fits covers room

theorem runs_valueCall (known : opAt env.code frame.pc = op)
    (calls : op = .call ∨ op = .callcode) (tempered : env.Tempered frame) :
    env.Steps frame.contract.gas frame := by
  rcases calls with rfl | rfl
  all_goals
    refine runs_of_enough ready known rfl fun enough => ?_
    cases frame
    rcases exists_cons enough with ⟨requested, stack, rfl, sixMore⟩
    have modest : env.Metered → env.Modest requested :=
      fun metered => tempered metered (known ▸ rfl) requested rfl
    rcases exists_three sixMore with ⟨_, value, _, stack, rfl, threeMore⟩
    rcases exists_three threeMore with ⟨_, _, _, stack, rfl, -⟩
    apply runs_calling ready known rfl (by decide) rfl rfl rfl rfl rfl rfl (withStipend_le value)
  · intro _ _ fits sameStack
    exact quotes_gasCall fits (by rw [sameStack]; rfl) (priced_callFloor modest)
      (by rw [sameStack]; rfl) (by rw [sameStack]; rfl)
  · intro contract _ _ fits output input room
    exact spends_opCall fits input output room
  · intro _ _ fits sameStack
    exact quotes_gasCallCode fits (by rw [sameStack]; rfl) (priced_callFloor modest)
      (by rw [sameStack]; rfl)
  · intro contract _ _ fits output input room
    exact spends_opCallCode fits input output room

theorem runs_valuelessCall (known : opAt env.code frame.pc = op)
    (calls : op = .delegatecall ∨ op = .staticcall) (tempered : env.Tempered frame) :
    env.Steps frame.contract.gas frame := by
  rcases calls with rfl | rfl
  all_goals
    refine runs_of_enough ready known rfl fun enough => ?_
    cases frame
    rcases exists_cons enough with ⟨requested, stack, rfl, fiveMore⟩
    have modest : env.Metered → env.Modest requested :=
      fun metered => tempered metered (known ▸ rfl) requested rfl
    rcases exists_three fiveMore with ⟨_, _, _, stack, rfl, twoMore⟩
    rcases exists_two twoMore with ⟨_, _, stack, rfl, -⟩
    apply runs_calling ready known rfl (by decide) rfl rfl rfl rfl rfl rfl (fun passed => le_rfl)
    · intro _ _ fits sameStack
      exact quotes_gasDelegateCall fits (by rw [sameStack]; rfl) (priced_callFloor modest)
    intro contract _ passed fits output input room
  · exact spends_opDelegateCall fits input output room
  · exact spends_opStaticCall fits input output room

end

theorem step_runs (ranged : env.Ranged) (ready : env.Ready frame)
    (provided : env.Provided (opAt env.code frame.pc)) (tempered : env.Tempered frame) :
    env.Steps frame.contract.gas frame := by
  have duplicates : ∀ pos, opAt env.code frame.pc = .dup pos → 1 ≤ pos :=
    fun _ known => opAt_dup known
  cases known : opAt env.code frame.pc with
  | stop => exact runs_final ready known rfl fun _ _ _ => final_opStop
  | undefined =>
    refine runs_final ready known rfl fun _ code pc => final_opUndefined ?_
    by_contra outside
    rw [opAt, ← code, ← pc, List.getElem?_eq_none (Nat.not_lt.mp outside)] at known
    cases known
  | add | mul | sub | div | sdiv | mod | smod | signextend | lt | gt | slt | sgt | eq | and | or
  | xor | byte | shl | shr | sar =>
    exact runs_plain ready known rfl rfl (by decide) fun _ => tame_binaryOp _
  | addmod | mulmod => exact runs_plain ready known rfl rfl (by decide) fun _ => tame_ternaryOp _
  | iszero | not => exact runs_plain ready known rfl rfl (by decide) fun _ => tame_unaryOp _
  | address | caller | callvalue | calldatasize | codesize | returndatasize | pc | msize | gas =>
    exact runs_plain ready known rfl rfl (by decide) fun _ _ => tame_push _
  | origin | gasprice | coinbase | timestamp | number | gaslimit =>
    exact runs_plain ready known rfl rfl (by decide) fun _ _ => tame_pushOp _
  | difficulty =>
    exact runs_plain ready known rfl rfl (by decide) fun _ _ => tame_difficulty env.ovm
  | basefee =>
    refine runs_plain ready known rfl rfl (by decide) fun _ _ => tame_pushBigOp ?_
    exact provided.symm.imp_left fun set => set.1 known
  | chainid =>
    refine runs_plain ready known rfl rfl (by decide) fun _ _ => tame_pushBigOp ?_
    exact provided.symm.imp_left fun set => set.2 known
  | calldataload => exact runs_plain ready known rfl rfl (by decide) fun _ => tame_opCallDataLoad
  | blockhash => exact runs_plain ready known rfl rfl (by decide) fun _ => tame_opBlockhash _
  | selfbalance => exact runs_plain ready known rfl rfl (by decide) fun _ _ => tame_opSelfBalance
  | pop => exact runs_plain ready known rfl rfl (by decide) fun _ => tame_opPop
  | jumpdest =>
    exact runs_plain ready known rfl rfl (by decide) fun _ _ => .still rfl
  | dup pos =>
    exact runs_plain ready known rfl rfl (by decide) fun _ => tame_makeDup (duplicates pos known)
  | swap => exact runs_plain ready known rfl rfl (by decide) fun _ => tame_makeSwap
  | exp =>
    exact runs_withGas ready known rfl rfl (fun _ _ least => Nat.le_add_left_of_le least)
      (fun _ fits enough => quotes_gasExpEIP158 fits enough) fun _ => tame_binaryOp _
  | balance =>
    exact runs_withGas ready known rfl rfl (paid_constant (by decide))
      (fun _ => quotes_gasEip2929AccountCheck) fun _ => tame_opBalance
  | extcodesize =>
    exact runs_withGas ready known rfl rfl (paid_constant (by decide))
      (fun _ => quotes_gasEip2929AccountCheck) fun _ => tame_opExtCodeSize
  | extcodehash =>
    exact runs_withGas ready known rfl rfl (paid_constant (by decide))
      (fun _ => quotes_gasEip2929AccountCheck) fun _ => tame_opExtCodeHash
  | sload =>
    exact runs_withGas ready known rfl rfl (fun _ _ least => Nat.le_add_left_of_le least)
      (fun _ => quotes_gasSLoadEIP2929) fun _ => tame_opSload
  | sstore =>
    exact runs_withGas ready known rfl rfl (fun _ _ least => Nat.le_add_left_of_le least)
      (fun _ => quotes_makeGasSStoreFunc) fun _ => tame_opSstore
  | selfdestruct =>
    exact runs_withGas ready known rfl rfl (paid_constant (by decide))
      (fun _ => quotes_gasSelfdestructEIP3529) fun _ => tame_opSelfdestruct
  | push => exact runs_pushing ready known
  | jump =>
    refine runs_jumping ready known (.inl rfl) (by decide) rfl fun _ enough runner => ?_
    apply (runs_opJump ranged env.ovm enough runner).mono
    rintro result log ⟨unlogged, jumped, landed⟩
    exact ⟨unlogged, jumped, fun proceeds => .inr (landed proceeds)⟩
  | jumpi =>
    refine runs_jumping ready known (.inr rfl) (by decide) rfl fun _ enough runner => ?_
    apply (runs_opJumpi ranged env.ovm enough runner).mono
    rintro result log ⟨unlogged, jumped, landed⟩
    exact ⟨unlogged, jumped, fun proceeds => (landed proceeds).imp_left fun stayed => ⟨rfl, stayed⟩⟩
  | keccak256 => exact runs_keccak256 ready known
  | calldatacopy | codecopy | returndatacopy => exact runs_copying ready known (by simp)
  | extcodecopy => exact runs_extcodecopy ready known
  | mload => exact runs_mload ready known
  | mstore | mstore8 => exact runs_mstore ready known (by simp)
  | log => exact runs_log ready known
  | ret | revert => exact runs_ending ready known (by simp)
  | create => exact runs_create ready known
  | create2 => exact runs_create2 ready known
  | call | callcode => exact runs_valueCall ready known (by simp) tempered
  | delegatecall | staticcall => exact runs_valuelessCall ready known (by simp) tempered

end Octopus
