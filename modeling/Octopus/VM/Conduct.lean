import Octopus.VM.Rounds

/-!
# The conduct of a frame

What the code of one frame may ask of its surroundings, and what it relies on in the
answers, as a protocol: a frame that may not write asks for nothing that writes, hands out
less gas than it has, and shares an analysis only of its own code.
-/

namespace Octopus

open Library Word

variable {query : Request} {memory : Memory} {word : Word} {size offset count gas : Nat}
  {stack : List Word} {data store : Bytes}

namespace Request

def frameGas : Request → Option Nat
  | call _ _ _ gas _ => some gas
  | callCode _ _ _ gas _ => some gas
  | delegateCall _ _ _ gas => some gas
  | staticCall _ _ _ gas => some gas
  | create _ _ gas _ => some gas
  | create2 _ _ gas _ _ => some gas
  | _ => none

def silent : Request → Bool
  | sharedAnalysis _ => false
  | request => request.frameGas.isNone

/-- The requests that every frame may make: reads of the state database, and the
refund counter, preimages and access lists. -/
def plain : Request → Bool
  | shareAnalysis _ _ => false
  | request => request.silent && !request.writes

end Request

/-- What is fixed for one frame: machine and level, its code, the analyses that other frames may
have shared, the faults that answers may stop with, what holds of every round of the frames
that it opens, and whether its gas is accounted for. -/
structure Setting where
  ovm : OVM
  level : Level
  code : Bytes
  codeHash : Hash
  analysed : Hash → Bytes → Prop
  faulty : Fault → Prop
  good : Round → Prop
  metered : Prop

namespace Setting

variable (setting : Setting)

def Metered : Prop :=
  setting.metered

/-- The gas that a call asks for can be added to its price: it is cut to what is left, or far
from the end of the number range, or no number of gas at all. -/
def Modest (requested : Word) : Prop :=
  setting.ovm.rules.isEIP150 = true ∨ requested.toNat < 2 ^ 63 ∨ uint64Size ≤ requested.toNat

def Trusted (bits : Bytes) : Prop :=
  bits = codeBitmap setting.code ∨ setting.codeHash ≠ 0 ∧ setting.analysed setting.codeHash bits

def Costs (gas leftOverGas : Nat) (log : List Round) : Prop :=
  setting.Metered → leftOverGas ≤ gas ∧ log.length + leftOverGas ≤ gas + 1

/-- The requests of a frame that has no more gas than the limit. -/
structure Asks (limit : Nat) (request : Request) : Prop where
  readOnly : setting.level.readOnly = true → request.writes = false
  gas : ∀ gas, request.frameGas = some gas → setting.Metered → gas + 1 ≤ limit
  analysis : ∀ hash bits, request = .shareAnalysis hash bits →
    hash = setting.codeHash ∧ hash ≠ 0 ∧ bits = codeBitmap setting.code

/-- The answers that a frame relies on, with the rounds behind them. -/
def Answers (request : Request) (answer : Except Fault request.Reply) (log : List Round) : Prop :=
  (∀ round ∈ log, setting.good round) ∧
    match request, answer with
    | request, .error reason =>
      setting.faulty reason ∧ (setting.Metered → log.length ≤ request.frameGas.elim 0 (· + 1))
    | .sharedAnalysis hash, .ok reply =>
      log = [] ∧ ∀ bits, reply = some bits → setting.analysed hash bits
    | .call _ _ _ gas _, .ok result => setting.Costs gas result.leftOverGas log
    | .callCode _ _ _ gas _, .ok result => setting.Costs gas result.leftOverGas log
    | .delegateCall _ _ _ gas, .ok result => setting.Costs gas result.leftOverGas log
    | .staticCall _ _ _ gas, .ok result => setting.Costs gas result.leftOverGas log
    | .create _ _ gas _, .ok result => setting.Costs gas result.leftOverGas log
    | .create2 _ _ gas _ _, .ok result => setting.Costs gas result.leftOverGas log
    | _, .ok _ => log = []

def protocol (limit : Nat) : Protocol Fault Request Request.Reply Round where
  asks := setting.Asks limit
  answers := setting.Answers

def Breaks (limit : Nat) (reason : Fault) (log : List Round) : Prop :=
  setting.faulty reason ∧ (setting.Metered → log.length ≤ limit)

def Runs {Value : Type} (limit : Nat) (program : Interaction Fault Request Request.Reply Value)
    (ends : Value → List Round → Prop) : Prop :=
  program.Meets (setting.protocol limit) ends (setting.Breaks limit)

namespace Asks

variable {setting} {limit : Nat}

theorem write (writable : setting.level.readOnly ≠ true) (silent : query.silent = true)
    (writes : query.writes = true) : setting.Asks limit query := by
  constructor
  · intro readOnly
    exact absurd readOnly writable
  · intro _ handed
    cases query <;> first | cases handed; done | cases silent
  · rintro hash bits rfl
    cases writes

theorem opens (handed : query.frameGas = some gas) (room : setting.Metered → gas + 1 ≤ limit)
    (permitted : setting.level.readOnly = true → query.writes = false) :
    setting.Asks limit query := by
  refine ⟨permitted, ?_, ?_⟩
  · intro _ alsoHanded
    rw [handed] at alsoHanded
    cases alsoHanded
    exact room
  · rintro hash bits rfl
    cases handed

end Asks

namespace Runs

variable {setting} {limit : Nat} {Value Other : Type}
  {program : Interaction Fault Request Request.Reply Value} {ends wider : Value → List Round → Prop}
  {next : query.Reply → Interaction Fault Request Request.Reply Value} {value : Value}

theorem mono (runs : setting.Runs limit program ends)
    (ended : ∀ value log, ends value log → wider value log) : setting.Runs limit program wider :=
  Interaction.Meets.mono runs ended fun _ _ broken => broken

theorem done (holds : ends value []) : setting.Runs limit (.done value) ends :=
  holds

theorem of_eq (executed : program = .done value) (holds : ends value []) :
    setting.Runs limit program ends := by
  subst executed
  exact holds

theorem fail {reason : Fault} (faulty : setting.faulty reason) :
    setting.Runs limit (.fail reason) ends :=
  ⟨faulty, fun _ => Nat.zero_le limit⟩

theorem silent (asked : setting.Asks limit query) (isSilent : query.silent = true)
    (replied : ∀ reply, setting.Runs limit (next reply) ends) :
    setting.Runs limit (.ask query next) ends := by
  refine ⟨asked, ?_, ?_⟩
  · rintro reply log ⟨-, answered⟩
    have unlogged : log = [] := by cases query <;> first | exact answered | cases isSilent
    subst unlogged
    exact replied reply
  · rintro reason log ⟨-, faulty, rounds⟩
    refine ⟨faulty, fun metered => (rounds metered).trans ?_⟩
    cases query <;> first | exact Nat.zero_le limit | cases isSilent

theorem plain (isPlain : query.plain = true)
    (replied : ∀ reply, setting.Runs limit (next reply) ends) :
    setting.Runs limit (.ask query next) ends := by
  apply silent _ _ replied
  · constructor
    · intro _
      cases query <;> first | rfl | cases isPlain
    · intro _ handed
      cases query <;> first | cases handed; done | cases isPlain
    · rintro hash bits rfl
      cases isPlain
  · cases query <;> first | rfl | cases isPlain

theorem frame (asked : setting.Asks limit query) (handed : query.frameGas = some gas)
    (replied : ∀ reply log, setting.Answers query (.ok reply) log →
      ∃ value, next reply = .done value ∧ ends value log) :
    setting.Runs limit (.ask query next) ends := by
  refine ⟨asked, ?_, ?_⟩
  · intro reply log answered
    rcases replied reply log answered with ⟨value, executed, ended⟩
    rw [executed]
    simpa [Interaction.Meets] using ended
  · rintro reason log ⟨-, faulty, rounds⟩
    refine ⟨faulty, fun metered => (rounds metered).trans ?_⟩
    rw [handed]
    exact asked.gas gas handed metered

theorem bind {first : Exec Value} {next : Value → Exec Other} {frame : Frame}
    {mid : Value × Frame → Prop} {last : Other × Frame → List Round → Prop}
    (ran : setting.Runs limit (first frame) fun result log => log = [] ∧ mid result)
    (rest : ∀ value new, mid (value, new) → setting.Runs limit (next value new) last) :
    setting.Runs limit ((first >>= next) frame) last := by
  apply Interaction.Meets.andThen ran
  rintro ⟨value, new⟩ log ⟨rfl, reached⟩
  exact rest value new reached

end Runs

end Setting

section

variable {Value Other : Type} (frame : Frame)

@[simp]
theorem get_bind (next : Frame → Exec Value) : (get >>= next) frame = next frame frame := rfl

@[simp]
theorem modify_bind (change : Frame → Frame) (next : Unit → Exec Value) :
    (modify change >>= next) frame = next () (change frame) := rfl

@[simp]
theorem pure_apply (value : Value) : (pure value : Exec Value) frame = .done (value, frame) := rfl

@[simp]
theorem proceed_apply : proceed frame = .done (([], none), frame) := rfl

@[simp]
theorem request_bind (query : Request) (next : query.Reply → Exec Value) :
    (request query >>= next) frame = .ask query fun reply => next reply frame := rfl

@[simp]
theorem push_bind (word : Word) (next : Unit → Exec Value) :
    (push word >>= next) frame = next () { frame with stack := word :: frame.stack } := rfl

@[simp]
theorem returnGas_bind (gas : Nat) (next : Unit → Exec Value) : (returnGas gas >>= next) frame =
      next () { frame with
        contract := { frame.contract with gas := (frame.contract.gas + gas) % uint64Size } } := rfl

theorem useGas_bind (gas : Nat) (next : Bool → Exec Value) : (useGas gas >>= next) frame =
      if frame.contract.gas < gas then next false frame
      else next true
        { frame with contract := { frame.contract with gas := frame.contract.gas - gas } } := by
  change ((if frame.contract.gas < gas then pure false else _ : Exec Bool) >>= next) frame = _
  split <;> rfl

theorem back_bind {pos : Nat} (found : frame.stack[pos]? = some word)
    (next : Word → Exec Value) : (back pos >>= next) frame = next word frame := by
  have executed : back pos frame = .done (word, frame) := by simp [back, found]
  change (back pos frame).andThen _ = _
  rw [executed]
  rfl

theorem readMemory_bind {offset size : Word}
    (read : frame.memory.getPtr (int64 offset.uint64) (int64 size.uint64) = .ok data)
    (next : Bytes → Exec Value) : (readMemory offset size >>= next) frame = next data frame := by
  have executed : readMemory offset size frame = .done (data, frame) := by
    simp only [readMemory, get_bind, read]
    rfl
  change (readMemory offset size frame).andThen _ = _
  rw [executed]
  rfl

theorem writeMemory_bind (written : frame.memory.set offset size data = .ok memory)
    (next : Unit → Exec Value) :
    (writeMemory offset size data >>= next) frame = next () { frame with memory := memory } := by
  have executed : writeMemory offset size data frame =
      .done ((), { frame with memory := memory }) := by
    simp only [writeMemory, get_bind, written]
    rfl
  change (writeMemory offset size data frame).andThen _ = _
  rw [executed]
  rfl

theorem writeWord_bind (written : frame.memory.set32 offset word = .ok memory)
    (next : Unit → Exec Value) :
    (writeWord offset word >>= next) frame = next () { frame with memory := memory } := by
  have executed : writeWord offset word frame = .done ((), { frame with memory := memory }) := by
    simp only [writeWord, get_bind, written]
    rfl
  change (writeWord offset word frame).andThen _ = _
  rw [executed]
  rfl

end

section

variable {Value : Type} (contract : Contract) (pc : Nat) (top : Word) (stack : List Word)
  (memory : Memory) (returnData : Bytes) (callGasTemp : Nat)

@[simp]
theorem pop_bind (next : Word → Exec Value) :
    (pop >>= next) ⟨contract, pc, top :: stack, memory, returnData, callGasTemp⟩ =
      next top ⟨contract, pc, stack, memory, returnData, callGasTemp⟩ := rfl

@[simp]
theorem peek_bind (next : Word → Exec Value) :
    (peek >>= next) ⟨contract, pc, top :: stack, memory, returnData, callGasTemp⟩ =
      next top ⟨contract, pc, top :: stack, memory, returnData, callGasTemp⟩ := rfl

end

theorem exists_cons (enough : count + 1 ≤ stack.length) :
    ∃ top rest, stack = top :: rest ∧ count ≤ rest.length := by
  rcases stack with _ | ⟨top, rest⟩
  · simp at enough
  · exact ⟨top, rest, rfl, by simpa using enough⟩

theorem exists_two (enough : count + 2 ≤ stack.length) :
    ∃ first second rest, stack = first :: second :: rest ∧ count ≤ rest.length := by
  rcases exists_cons enough with ⟨first, stack, rfl, oneMore⟩
  rcases exists_cons oneMore with ⟨second, rest, rfl, left⟩
  exact ⟨first, second, rest, rfl, left⟩

theorem exists_three (enough : count + 3 ≤ stack.length) :
    ∃ first second third rest, stack = first :: second :: third :: rest ∧ count ≤ rest.length := by
  rcases exists_two enough with ⟨first, second, stack, rfl, oneMore⟩
  rcases exists_cons oneMore with ⟨third, rest, rfl, left⟩
  exact ⟨first, second, third, rest, rfl, left⟩

def memoryLimit : Nat := 0x1FFFFFFFE0

def memoryFee (words : Nat) : Nat :=
  words * Params.memoryGas + words * words / Params.quadCoeffDiv

/-- The memory is within the limit, and what has been charged for it is what it costs. -/
structure Memory.Fits (memory : Memory) : Prop where
  length_le : memory.store.length ≤ memoryLimit
  lastGasCost_eq : memory.lastGasCost = memoryFee (toWordSize memory.store.length)

theorem Memory.fits_empty : ({} : Memory).Fits :=
  ⟨by decide, by decide⟩

def Covers (store : Bytes) (offset size : Nat) : Prop :=
  size = 0 ∨ offset + size ≤ store.length

theorem memoryFee_mono {fewer more : Nat} (le : fewer ≤ more) : memoryFee fewer ≤ memoryFee more :=
  Nat.add_le_add (Nat.mul_le_mul_right _ le) (Nat.div_le_div_right (Nat.mul_le_mul le le))

theorem toWordSize_of_le (le : size ≤ memoryLimit) : toWordSize size = (size + 31) / 32 := by
  unfold memoryLimit at le
  rw [toWordSize, if_neg (by unfold uint64Size; omega)]

theorem memoryFee_le (le : size ≤ memoryLimit) : memoryFee (toWordSize size) ≤ 2 ^ 56 := by
  have words : toWordSize size ≤ 2 ^ 32 := by
    rw [toWordSize_of_le le]
    unfold memoryLimit at le
    omega
  refine (memoryFee_mono words).trans ?_
  decide

theorem Word.uint64_of_lt (small : word.toNat < uint64Size) : word.uint64 = word.toNat :=
  Nat.mod_eq_of_lt small

theorem Word.uint64_of_eq_zero (zero : word.toNat = 0) : word.uint64 = 0 := by
  rw [uint64, zero]
  rfl

theorem Memory.getPtr_of_covers {offset size : Word} (fits : memory.Fits)
    (covers : Covers memory.store offset.toNat size.toNat) :
    ∃ data, memory.getPtr (int64 offset.uint64) (int64 size.uint64) = .ok data := by
  have bound := fits.length_le
  unfold memoryLimit at bound
  rcases covers with empty | inside
  · refine ⟨[], ?_⟩
    rw [uint64_of_eq_zero empty]
    rfl
  have offsetSmall : offset.toNat < 2 ^ 63 := by omega
  have sizeSmall : size.toNat < 2 ^ 63 := by omega
  rw [uint64_of_lt (by unfold uint64Size; omega),
    uint64_of_lt (by unfold uint64Size; omega), int64, if_pos offsetSmall, int64,
    if_pos sizeSmall, getPtr]
  split_ifs
  · exact ⟨_, rfl⟩
  · exact ⟨_, rfl⟩
  · omega
  · exact ⟨_, rfl⟩

/-- Within the memory limit the end of the slice does not wrap around. -/
theorem getData_eq (data : Bytes) (start : Nat) (le : size ≤ memoryLimit) :
    ∃ read, getData data start size = pure read := by
  unfold memoryLimit at le
  refine ⟨_, if_neg ?_⟩
  unfold len
  rw [Nat.mod_eq_of_lt (by unfold uint64Size; omega)]
  omega

theorem length_overwrite {value : Bytes} (inside : offset + value.length ≤ store.length) :
    (overwrite store offset value).length = store.length := by
  simp only [overwrite, List.length_append, List.length_take, List.length_drop]
  omega

theorem Memory.set_of_covers {offset size : Word} (fits : memory.Fits)
    (covers : Covers memory.store offset.toNat size.toNat) (data : Bytes) :
    ∃ new, memory.set offset.uint64 size.uint64 data = .ok new ∧
      new.store.length = memory.store.length ∧ new.lastGasCost = memory.lastGasCost := by
  have bound := fits.length_le
  unfold memoryLimit at bound
  rcases covers with empty | inside
  · refine ⟨memory, ?_, rfl, rfl⟩
    rw [uint64_of_eq_zero empty]
    rfl
  rw [uint64_of_lt (by unfold uint64Size; omega), uint64_of_lt (by unfold uint64Size; omega), set,
    Nat.mod_eq_of_lt (by unfold uint64Size; omega)]
  split_ifs
  · exact ⟨memory, rfl, rfl, rfl⟩
  · omega
  · omega
  · refine ⟨_, rfl, ?_, rfl⟩
    apply length_overwrite
    rw [List.length_take]
    omega

theorem Memory.set32_of_covers (fits : memory.Fits) (inside : offset + 32 ≤ memory.store.length)
    (word : Word) :
    ∃ new, memory.set32 offset word = .ok new ∧
      new.store.length = memory.store.length ∧ new.lastGasCost = memory.lastGasCost := by
  have bound := fits.length_le
  unfold memoryLimit at bound
  rw [set32, Nat.mod_eq_of_lt (by unfold uint64Size; omega)]
  split_ifs
  · omega
  · omega
  · refine ⟨_, rfl, ?_, rfl⟩
    apply length_overwrite
    rw [List.length_take]
    omega

theorem calcMemSize64WithUint_eq_some {offset : Word} {length : Nat} (positive : length ≠ 0)
    (needed : calcMemSize64WithUint offset length = some size) :
    offset.toNat < uint64Size ∧ offset.toNat + length = size := by
  rw [calcMemSize64WithUint, if_neg positive] at needed
  split at needed
  · next small =>
    have small : offset.toNat < uint64Size := by simpa [isUint64] using small
    rw [safeAdd, uint64_of_lt small] at needed
    split at needed
    · exact ⟨small, Option.some_inj.mp needed⟩
    · cases needed
  · cases needed

theorem calcMemSize64_eq_some {offset length : Word}
    (needed : calcMemSize64 offset length = some size) (expanded : size ≤ store.length) :
    length.toNat < uint64Size ∧ Covers store offset.toNat length.toNat := by
  rw [calcMemSize64] at needed
  split at needed
  · next small =>
    have small : length.toNat < uint64Size := by simpa [isUint64] using small
    rw [uint64_of_lt small] at needed
    refine ⟨small, ?_⟩
    by_cases empty : length.toNat = 0
    · exact .inl empty
    · rcases calcMemSize64WithUint_eq_some empty needed with ⟨-, rfl⟩
      exact .inr expanded
  · cases needed

end Octopus
