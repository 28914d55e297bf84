import Octopus.VM.Instructions

/-!
# Memory sizes and dynamic gas

The gas functions of the London instruction table.  One may change the frame, the access
list and the refund counter before it fails; its error is only looked at for being one.
-/

namespace Octopus

open Params

/-- `calcMemSize64WithUint`; no value is returned on overflow. -/
def calcMemSize64WithUint (off : Word) (length : Nat) : Option Nat :=
  if length = 0 then some 0
  else if Word.isUint64 off then safeAdd (Word.uint64 off) length
  else none

def calcMemSize64 (off length : Word) : Option Nat :=
  if Word.isUint64 length then calcMemSize64WithUint off (Word.uint64 length) else none

def memoryRegion (offset length : Nat) : Exec (Option Nat) := do
  return calcMemSize64 (← back offset) (← back length)

def memoryFixed (offset length : Nat) : Exec (Option Nat) := do
  return calcMemSize64WithUint (← back offset) length

def memoryRegions (outOffset outLength inOffset inLength : Nat) : Exec (Option Nat) := do
  match calcMemSize64 (← back outOffset) (← back outLength) with
  | none => return none
  | some x =>
    match calcMemSize64 (← back inOffset) (← back inLength) with
    | none => return none
    | some y => return some (max x y)

def memoryKeccak256 : Exec (Option Nat) := memoryRegion 0 1
def memoryCallDataCopy : Exec (Option Nat) := memoryRegion 0 2
def memoryReturnDataCopy : Exec (Option Nat) := memoryRegion 0 2
def memoryCodeCopy : Exec (Option Nat) := memoryRegion 0 2
def memoryExtCodeCopy : Exec (Option Nat) := memoryRegion 1 3
def memoryMLoad : Exec (Option Nat) := memoryFixed 0 32
def memoryMStore8 : Exec (Option Nat) := memoryFixed 0 1
def memoryMStore : Exec (Option Nat) := memoryFixed 0 32
def memoryCreate : Exec (Option Nat) := memoryRegion 1 2
def memoryCreate2 : Exec (Option Nat) := memoryRegion 1 2
def memoryCall : Exec (Option Nat) := memoryRegions 5 6 3 4
def memoryDelegateCall : Exec (Option Nat) := memoryRegions 4 5 2 3
def memoryStaticCall : Exec (Option Nat) := memoryRegions 4 5 2 3
def memoryReturn : Exec (Option Nat) := memoryRegion 0 1
def memoryRevert : Exec (Option Nat) := memoryRegion 0 1
def memoryLog : Exec (Option Nat) := memoryRegion 0 1

def sub64 (left right : Nat) : Nat :=
  (left + uint64Size - right) % uint64Size

def orOverflow (value : Option Nat) : GasExec Nat :=
  match value with
  | some value => pure value
  | none => throw .gasUintOverflow

def memoryGasCost (newMemSize : Nat) : GasExec Nat := do
  if newMemSize = 0 then return 0
  else if newMemSize > 0x1FFFFFFFE0 then throw .gasUintOverflow
  else
    let memory := (← getThe Frame).memory
    let words := toWordSize newMemSize
    if words * 32 > memory.store.length then
      let newTotalFee :=
        words * memoryGas + words * words / quadCoeffDiv
      modifyThe Frame fun frame =>
        { frame with memory := { frame.memory with lastGasCost := newTotalFee } }
      return sub64 newTotalFee memory.lastGasCost
    else return 0

def memoryWordGas (stackpos perWord memorySize : Nat) : GasExec Nat := do
  let gas ← memoryGasCost memorySize
  let size ← back stackpos
  if Word.isUint64 size then
    let words ← orOverflow (safeMul (toWordSize (Word.uint64 size)) perWord)
    orOverflow (safeAdd gas words)
  else throw .gasUintOverflow

def memoryCopierGas (stackpos memorySize : Nat) : GasExec Nat :=
  memoryWordGas stackpos copyGas memorySize

def gasCallDataCopy : Nat → GasExec Nat := memoryCopierGas 2
def gasCodeCopy : Nat → GasExec Nat := memoryCopierGas 2
def gasExtCodeCopy : Nat → GasExec Nat := memoryCopierGas 3
def gasReturnDataCopy : Nat → GasExec Nat := memoryCopierGas 2
def gasKeccak256 : Nat → GasExec Nat := memoryWordGas 1 keccak256WordGas
def gasCreate2 : Nat → GasExec Nat := memoryWordGas 2 keccak256WordGas

def pureMemoryGascost (memorySize : Nat) : GasExec Nat :=
  memoryGasCost memorySize

def gasReturn : Nat → GasExec Nat := pureMemoryGascost
def gasRevert : Nat → GasExec Nat := pureMemoryGascost
def gasMLoad : Nat → GasExec Nat := pureMemoryGascost
def gasMStore8 : Nat → GasExec Nat := pureMemoryGascost
def gasMStore : Nat → GasExec Nat := pureMemoryGascost
def gasCreate : Nat → GasExec Nat := pureMemoryGascost

def makeGasLog (topics memorySize : Nat) : GasExec Nat := do
  let requestedSize ← back 1
  if Word.isUint64 requestedSize then
    let gas ← memoryGasCost memorySize
    let gas ← orOverflow (safeAdd gas logGas)
    let gas ← orOverflow (safeAdd gas (topics * logTopicGas))
    let dataGas ← orOverflow (safeMul (Word.uint64 requestedSize) logDataGas)
    orOverflow (safeAdd gas dataGas)
  else throw .gasUintOverflow

def Word.bitLen (word : Word) : Nat :=
  if word = 0 then 0 else word.toNat.log2 + 1

def gasExpEIP158 (_memorySize : Nat) : GasExec Nat := do
  let exponent ← back 1
  let expByteLen := (Word.bitLen exponent + 7) / 8
  orOverflow (safeAdd (expByteLen * expByteEIP158) expGas)

/-- `callGas`: under EIP-150 all but one part in sixty-four of what is left may
be passed on. -/
def callGas (isEip150 : Bool) (availableGas base : Nat) (callCost : Word) : GasExec Nat :=
  let available := sub64 availableGas base
  let gas := available - available / 64
  if isEip150 && (!Word.isUint64 callCost || gas < Word.uint64 callCost) then pure gas
  else if Word.isUint64 callCost then pure (Word.uint64 callCost)
  else throw .gasUintOverflow

def chargeCallGas (ovm : OVM) (gas : Nat) : GasExec Nat := do
  let requested ← back 0
  let available := (← getThe Frame).contract.gas
  let passed ← callGas ovm.rules.isEIP150 available gas requested
  modifyThe Frame fun frame => { frame with callGasTemp := passed }
  orOverflow (safeAdd gas passed)

def gasCall (ovm : OVM) (memorySize : Nat) : GasExec Nat := do
  let transfersValue := (← back 2) ≠ 0
  let address := wordAddress (← back 1)
  let accountGas ←
    if ovm.rules.isEIP158 then
      if transfersValue then if ← request (.empty address) then pure callNewAccountGas else pure 0
      else pure 0
    else do
      if ← request (.exist address) then pure 0
      else pure callNewAccountGas
  let gas := accountGas + if transfersValue then callValueTransferGas else 0
  let memoryGas ← memoryGasCost memorySize
  let gas ← orOverflow (safeAdd gas memoryGas)
  chargeCallGas ovm gas

def gasCallCode (ovm : OVM) (memorySize : Nat) : GasExec Nat := do
  let memoryGas ← memoryGasCost memorySize
  let gas := if (← back 2) ≠ 0 then callValueTransferGas else 0
  let gas ← orOverflow (safeAdd gas memoryGas)
  chargeCallGas ovm gas

def gasDelegateCall (ovm : OVM) (memorySize : Nat) : GasExec Nat := do
  let gas ← memoryGasCost memorySize
  chargeCallGas ovm gas

def gasStaticCall (ovm : OVM) (memorySize : Nat) : GasExec Nat := do
  let gas ← memoryGasCost memorySize
  chargeCallGas ovm gas

/-- What a cold account access costs on top of the warm price, which is a
constant cost already. -/
def coldAccountCost : Nat :=
  coldAccountAccessCostEIP2929 - warmStorageReadCostEIP2929

/-- `makeGasSStoreFunc`; the check of the access list is commented out in the
source. -/
def makeGasSStoreFunc (clearingRefund _memorySize : Nat) : GasExec Nat := do
  let contract := (← getThe Frame).contract
  if contract.gas ≤ sstoreSentryGasEIP2200 then throw .reentrancySentry
  else
    let value ← back 1
    let slot ← peek
    let current ← request (.getState contract.self slot)
    if current = value then return warmStorageReadCostEIP2929
    else
      let original ← request (.getCommittedState contract.self slot)
      if original = current then
        if original = 0 then return sstoreSetGasEIP2200
        else
          if value = 0 then request (.addRefund clearingRefund)
          return sstoreResetGasEIP2200 - coldSloadCostEIP2929
      else
        if original ≠ 0 then
          if current = 0 then request (.subRefund clearingRefund)
          else if value = 0 then request (.addRefund clearingRefund)
        if original = value then
          if original = 0 then
            request (.addRefund
              (sstoreSetGasEIP2200 - warmStorageReadCostEIP2929))
          else
            request (.addRefund
              (sstoreResetGasEIP2200 - coldSloadCostEIP2929 -
                warmStorageReadCostEIP2929))
        return warmStorageReadCostEIP2929

def gasSStoreEIP3529 : Nat → GasExec Nat :=
  makeGasSStoreFunc sstoreClearsScheduleRefundEIP3529

def gasSLoadEIP2929 (_memorySize : Nat) : GasExec Nat := do
  let slot ← peek
  let self := (← getThe Frame).contract.self
  let (_, slotPresent) ← request (.slotInAccessList self slot)
  if slotPresent then return warmStorageReadCostEIP2929
  else
    request (.addSlotToAccessList self slot)
    return coldSloadCostEIP2929

def gasExtCodeCopyEIP2929 (memorySize : Nat) : GasExec Nat := do
  let gas ← gasExtCodeCopy memorySize
  let addr := wordAddress (← peek)
  if ← request (.addressInAccessList addr) then return gas
  else
    request (.addAddressToAccessList addr)
    orOverflow (safeAdd gas coldAccountCost)

def gasEip2929AccountCheck (_memorySize : Nat) : GasExec Nat := do
  let addr := wordAddress (← peek)
  if ← request (.addressInAccessList addr) then return 0
  else
    request (.addAddressToAccessList addr)
    return coldAccountCost

/-- A cold charge is taken before the old calculation, given back, and part of the result. -/
def makeCallVariantGasCallEIP2929 (oldCalculator : Nat → GasExec Nat) (memorySize : Nat) :
    GasExec Nat := do
  let addr := wordAddress (← back 1)
  if ← request (.addressInAccessList addr) then oldCalculator memorySize
  else
    request (.addAddressToAccessList addr)
    if ← useGas coldAccountCost then
      let gas ← oldCalculator memorySize
      returnGas coldAccountCost
      return (gas + coldAccountCost) % uint64Size
    else throw .outOfGas

def gasCallEIP2929 (ovm : OVM) : Nat → GasExec Nat :=
  makeCallVariantGasCallEIP2929 (gasCall ovm)

def gasDelegateCallEIP2929 (ovm : OVM) : Nat → GasExec Nat :=
  makeCallVariantGasCallEIP2929 (gasDelegateCall ovm)

def gasStaticCallEIP2929 (ovm : OVM) : Nat → GasExec Nat :=
  makeCallVariantGasCallEIP2929 (gasStaticCall ovm)

def gasCallCodeEIP2929 (ovm : OVM) : Nat → GasExec Nat :=
  makeCallVariantGasCallEIP2929 (gasCallCode ovm)

def gasSelfdestructEIP3529 (_memorySize : Nat) : GasExec Nat := do
  let address := wordAddress (← peek)
  let self := (← getThe Frame).contract.self
  let accessGas ←
    if ← request (.addressInAccessList address) then pure 0
    else
      request (.addAddressToAccessList address)
      pure coldAccountAccessCostEIP2929
  if ← request (.empty address) then
    if (← request (.getBalance self)) ≠ 0 then return accessGas + createBySelfdestructGas
    else return accessGas
  else return accessGas

end Octopus
