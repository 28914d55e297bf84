import Octopus.VM.Frame

/-!
# Instructions

One definition for each `execute` function of the instruction table; those of one shape are
instances of one definition.
-/

namespace Octopus

/-- `BlockContext`, without the transfer functions, which are always
`canTransfer` and `transfer`. -/
structure BlockContext where
  getHash : Nat → Hash
  coinbase : Address
  gasLimit : Nat
  blockNumber : Nat
  time : Nat
  difficulty : Nat
  baseFee : Option Int
  random : Option Hash

structure TxContext where
  origin : Address
  gasPrice : Int

/-- The parts of `OVM` that do not change while a transaction runs. -/
structure OVM where
  context : BlockContext
  txContext : TxContext
  chainConfig : ChainConfig
  enablePreimageRecording : Bool := false
  abort : Bool := false

def OVM.rules (ovm : OVM) : Rules :=
  ovm.chainConfig.rules ovm.context.blockNumber ovm.context.random.isSome

namespace Word

def ofBool (flag : Bool) : Word :=
  if flag then 1 else 0

def mod (x y : Word) : Word :=
  if y = 0 then 0 else x % y

def smod (x y : Word) : Word :=
  if y = 0 then 0 else x.srem y

def exp (base exponent : Word) : Word :=
  (List.range 256).foldr
    (fun index power => if exponent.getLsbD index then power * power * base else power * power) 1

def extendSign (back number : Word) : Word :=
  if 31 < back.toNat then number
  else (number.setWidth (8 * back.toNat + 8)).signExtend 256

def byteAt (position word : Word) : Word :=
  if position.toNat < 32 then (word >>> (8 * (31 - position.toNat))) &&& 0xff else 0

def addMod (x y modulus : Word) : Word :=
  if modulus = 0 then 0 else BitVec.ofNat 256 ((x.toNat + y.toNat) % modulus.toNat)

def mulMod (x y modulus : Word) : Word :=
  if modulus = 0 then 0 else BitVec.ofNat 256 ((x.toNat * y.toNat) % modulus.toNat)

def shl (shift value : Word) : Word :=
  if shift.toNat < 256 then value <<< shift.toNat else 0

def shr (shift value : Word) : Word :=
  if shift.toNat < 256 then value >>> shift.toNat else 0

def sar (shift value : Word) : Word :=
  if 256 < shift.toNat then (if value.msb then BitVec.allOnes 256 else 0)
  else value.sshiftRight shift.toNat

end Word

def unaryOp (operation : Word → Word) : Exec Outcome := do
  let x ← peek
  setTop (operation x)
  proceed

def binaryOp (operation : Word → Word → Word) : Exec Outcome := do
  let x ← pop
  let y ← peek
  setTop (operation x y)
  proceed

def ternaryOp (operation : Word → Word → Word → Word) : Exec Outcome := do
  let x ← pop
  let y ← pop
  let z ← peek
  setTop (operation x y z)
  proceed

def pushOp (word : Word) : Exec Outcome := do
  push word
  proceed

/-- Push a `big.Int` of the environment; converting a nil pointer panics. -/
def pushBigOp (value : Option Int) : Exec Outcome := do
  match value with
  | some value => pushOp (fromBig value)
  | none => panic "nil pointer dereference"

def opAdd : Exec Outcome := binaryOp (· + ·)
def opSub : Exec Outcome := binaryOp (· - ·)
def opMul : Exec Outcome := binaryOp (· * ·)
def opDiv : Exec Outcome := binaryOp (· / ·)
def opSdiv : Exec Outcome := binaryOp BitVec.sdiv
def opMod : Exec Outcome := binaryOp Word.mod
def opSmod : Exec Outcome := binaryOp Word.smod
def opExp : Exec Outcome := binaryOp Word.exp
def opSignExtend : Exec Outcome := binaryOp Word.extendSign
def opNot : Exec Outcome := unaryOp (~~~ ·)
def opLt : Exec Outcome := binaryOp fun x y => Word.ofBool (x.ult y)
def opGt : Exec Outcome := binaryOp fun x y => Word.ofBool (y.ult x)
def opSlt : Exec Outcome := binaryOp fun x y => Word.ofBool (x.slt y)
def opSgt : Exec Outcome := binaryOp fun x y => Word.ofBool (y.slt x)
def opEq : Exec Outcome := binaryOp fun x y => Word.ofBool (x == y)
def opIszero : Exec Outcome := unaryOp fun x => Word.ofBool (x == 0)
def opAnd : Exec Outcome := binaryOp (· &&& ·)
def opOr : Exec Outcome := binaryOp (· ||| ·)
def opXor : Exec Outcome := binaryOp (· ^^^ ·)
def opByte : Exec Outcome := binaryOp Word.byteAt
def opAddmod : Exec Outcome := ternaryOp Word.addMod
def opMulmod : Exec Outcome := ternaryOp Word.mulMod
def opSHL : Exec Outcome := binaryOp Word.shl
def opSHR : Exec Outcome := binaryOp Word.shr
def opSAR : Exec Outcome := binaryOp Word.sar

section

variable [Crypto]

def opKeccak256 (ovm : OVM) : Exec Outcome := do
  let offset ← pop
  let size ← peek
  let data ← readMemory offset size
  let hash := Crypto.keccak256 data
  if ovm.enablePreimageRecording then request (.addPreimage hash data)
  setTop hash
  proceed

end

def opAddress : Exec Outcome := do
  pushOp (addressWord (← get).contract.self)

def opBalance : Exec Outcome := do
  let slot ← peek
  let balance ← request (.getBalance (wordAddress slot))
  setTop (fromBig balance)
  proceed

def opOrigin (ovm : OVM) : Exec Outcome :=
  pushOp (addressWord ovm.txContext.origin)

def opCaller : Exec Outcome := do
  pushOp (addressWord (← get).contract.callerAddress)

def opCallValue : Exec Outcome := do
  pushOp (fromBig (← get).contract.value)

def opCallDataLoad : Exec Outcome := do
  let x ← peek
  let input := (← get).contract.input
  if Word.isUint64 x then setTop (Bytes.toWord (← getData input (Word.uint64 x) 32))
  else setTop 0
  proceed

def opCallDataSize : Exec Outcome := do
  pushOp (BitVec.ofNat 256 (← get).contract.input.length)

def clampOffset (offset : Word) : Nat :=
  if Word.isUint64 offset then Word.uint64 offset else uint64Size - 1

def opCallDataCopy : Exec Outcome := do
  let memOffset ← pop
  let dataOffset ← pop
  let length ← pop
  let input := (← get).contract.input
  let data ← getData input (clampOffset dataOffset) (Word.uint64 length)
  writeMemory (Word.uint64 memOffset) (Word.uint64 length) data
  proceed

def opReturnDataSize : Exec Outcome := do
  pushOp (BitVec.ofNat 256 (← get).returnData.length)

def opReturnDataCopy : Exec Outcome := do
  let memOffset ← pop
  let dataOffset ← pop
  let length ← pop
  let returnData := (← get).returnData
  let stop : Word := dataOffset + length
  if !Word.isUint64 dataOffset then return ([], some .returnDataOutOfBounds)
  else if !Word.isUint64 stop || returnData.length < Word.uint64 stop then
    return ([], some .returnDataOutOfBounds)
  else if Word.uint64 stop < Word.uint64 dataOffset then panic "slice bounds out of range"
  else
    writeMemory (Word.uint64 memOffset) (Word.uint64 length)
      ((returnData.drop (Word.uint64 dataOffset)).take
        (Word.uint64 stop - Word.uint64 dataOffset))
    proceed

def opExtCodeSize : Exec Outcome := do
  let slot ← peek
  let size ← request (.getCodeSize (wordAddress slot))
  setTop (BitVec.ofNat 256 size)
  proceed

def opCodeSize : Exec Outcome := do
  pushOp (BitVec.ofNat 256 (← get).contract.code.length)

def opCodeCopy : Exec Outcome := do
  let memOffset ← pop
  let codeOffset ← pop
  let length ← pop
  let code := (← get).contract.code
  let data ← getData code (clampOffset codeOffset) (Word.uint64 length)
  writeMemory (Word.uint64 memOffset) (Word.uint64 length) data
  proceed

def opExtCodeCopy : Exec Outcome := do
  let a ← pop
  let memOffset ← pop
  let codeOffset ← pop
  let length ← pop
  let code ← request (.getCode (wordAddress a))
  let data ← getData code (clampOffset codeOffset) (Word.uint64 length)
  writeMemory (Word.uint64 memOffset) (Word.uint64 length) data
  proceed

def opExtCodeHash : Exec Outcome := do
  let slot ← peek
  if ← request (.empty (wordAddress slot)) then setTop 0
  else setTop (← request (.getCodeHash (wordAddress slot)))
  proceed

def opGasprice (ovm : OVM) : Exec Outcome :=
  pushOp (fromBig ovm.txContext.gasPrice)

def opBlockhash (ovm : OVM) : Exec Outcome := do
  let number ← peek
  let upper := ovm.context.blockNumber % uint64Size
  let lower := if upper < 257 then 0 else upper - 256
  if !Word.isUint64 number then setTop 0
  else if lower ≤ Word.uint64 number ∧ Word.uint64 number < upper then
    setTop (ovm.context.getHash (Word.uint64 number))
  else setTop 0
  proceed

def opCoinbase (ovm : OVM) : Exec Outcome :=
  pushOp (addressWord ovm.context.coinbase)

def opTimestamp (ovm : OVM) : Exec Outcome :=
  pushOp (fromBig ovm.context.time)

def opNumber (ovm : OVM) : Exec Outcome :=
  pushOp (fromBig ovm.context.blockNumber)

def opDifficulty (ovm : OVM) : Exec Outcome :=
  pushOp (fromBig ovm.context.difficulty)

def opRandom (ovm : OVM) : Exec Outcome :=
  match ovm.context.random with
  | some random => pushOp random
  | none => panic "nil pointer dereference"

def opGasLimit (ovm : OVM) : Exec Outcome :=
  pushOp (BitVec.ofNat 256 ovm.context.gasLimit)

def opChainID (ovm : OVM) : Exec Outcome :=
  pushBigOp ovm.chainConfig.chainID

def opSelfBalance : Exec Outcome := do
  let balance ← request (.getBalance (← get).contract.self)
  pushOp (fromBig balance)

def opBaseFee (ovm : OVM) : Exec Outcome :=
  pushBigOp ovm.context.baseFee

def opPop : Exec Outcome := do
  let _ ← pop
  proceed

def opMload : Exec Outcome := do
  let v ← peek
  let data ← readMemory v 32
  setTop (Bytes.toWord data)
  proceed

def opMstore : Exec Outcome := do
  let mStart ← pop
  let val ← pop
  writeWord (Word.uint64 mStart) val
  proceed

def opMstore8 : Exec Outcome := do
  let off ← pop
  let val ← pop
  writeByte (Word.uint64 off) (val.setWidth 8)
  proceed

def opSload : Exec Outcome := do
  let loc ← peek
  let val ← request (.getState (← get).contract.self loc)
  setTop val
  proceed

def opSstore (level : Level) : Exec Outcome := do
  if level.readOnly then return ([], some .writeProtection)
  else
    let loc ← pop
    let val ← pop
    request (.setState (← get).contract.self loc val)
    proceed

def jumpTo (destination : Word) : Exec Unit :=
  modify fun frame =>
    { frame with pc := (Word.uint64 destination + uint64Size - 1) % uint64Size }

def opJump (ovm : OVM) : Exec Outcome := do
  if ovm.abort then return ([], some .stopToken)
  else
    let pos ← pop
    if ← validJumpdest pos then
      jumpTo pos
      proceed
    else return ([], some .invalidJump)

def opJumpi (ovm : OVM) : Exec Outcome := do
  if ovm.abort then return ([], some .stopToken)
  else
    let pos ← pop
    let cond ← pop
    if cond = 0 then proceed
    else if ← validJumpdest pos then
      jumpTo pos
      proceed
    else return ([], some .invalidJump)

def opJumpdest : Exec Outcome :=
  proceed

def opPc : Exec Outcome := do
  pushOp (BitVec.ofNat 256 (← get).pc)

def opMsize : Exec Outcome := do
  pushOp (BitVec.ofNat 256 (← get).memory.store.length)

def opGas : Exec Outcome := do
  pushOp (BitVec.ofNat 256 (← get).contract.gas)

def opPush1 : Exec Outcome := do
  modify fun frame => { frame with pc := (frame.pc + 1) % uint64Size }
  let frame ← get
  pushOp ((frame.contract.code.getD frame.pc 0).setWidth 256)

/-- `makePush`: the immediate bytes, padded on the right past the end of the
code. -/
def makePush (size : Nat) : Exec Outcome := do
  let frame ← get
  push (Bytes.toWord (Bytes.window frame.contract.code (frame.pc + 1) size))
  modify fun frame => { frame with pc := (frame.pc + size) % uint64Size }
  proceed

def makeDup (size : Nat) : Exec Outcome := do
  dup size
  proceed

def makeSwap (size : Nat) : Exec Outcome := do
  swap (size + 1)
  proceed

def popMany : Nat → Exec (List Word)
  | 0 => pure []
  | count + 1 => do
      let word ← pop
      return word :: (← popMany count)

def makeLog (ovm : OVM) (level : Level) (size : Nat) : Exec Outcome := do
  if level.readOnly then return ([], some .writeProtection)
  else
    let mStart ← pop
    let mSize ← pop
    let topics ← popMany size
    let data ← readMemory mStart mSize
    let self := (← get).contract.self
    request (.addLog
      { address := self, topics := topics, data := data
        blockNumber := ovm.context.blockNumber % uint64Size })
    proceed

/-- The end of a creating instruction: the new address or zero, the returned
gas, and the data of a revert. -/
def settleCreate (result : CreateResult) (failed : Bool) : Exec Outcome := do
  push (if failed then 0 else addressWord result.contractAddr)
  returnGas result.leftOverGas
  if result.err = some .executionReverted then
    setReturnData result.ret
    return (result.ret, none)
  else
    setReturnData []
    proceed

/-- `opCreate`: outside of Homestead rules, running out of gas for storing the
code counts as success. -/
def opCreate (ovm : OVM) (level : Level) : Exec Outcome := do
  if level.readOnly then return ([], some .writeProtection)
  else
    let value ← pop
    let offset ← pop
    let size ← pop
    let input ← readMemory offset size
    let contract := (← get).contract
    let gas := if ovm.rules.isEIP150 then contract.gas - contract.gas / 64 else contract.gas
    let _ ← useGas gas
    let result ← request (.create contract.self input gas value)
    let failed :=
      (ovm.rules.isHomestead && result.err == some .codeStoreOutOfGas) ||
        (result.err.isSome && result.err != some .codeStoreOutOfGas)
    settleCreate result failed

def opCreate2 (level : Level) : Exec Outcome := do
  if level.readOnly then return ([], some .writeProtection)
  else
    let endowment ← pop
    let offset ← pop
    let size ← pop
    let salt ← pop
    let input ← readMemory offset size
    let contract := (← get).contract
    let gas := contract.gas - contract.gas / 64
    let _ ← useGas gas
    let result ← request (.create2 contract.self input gas endowment salt)
    settleCreate result result.err.isSome

/-- The end of a calling instruction: the success flag, the output copied to
memory, and the returned gas. -/
def settleCall (result : CallResult) (retOffset retSize : Word) : Exec Outcome := do
  push (if result.err.isSome then 0 else 1)
  if result.err = none ∨ result.err = some .executionReverted then
    writeMemory (Word.uint64 retOffset) (Word.uint64 retSize) result.ret
  returnGas result.leftOverGas
  setReturnData result.ret
  return (result.ret, none)

def withStipend (gas : Nat) (value : Word) : Nat :=
  if value = 0 then gas else (gas + Params.callStipend) % uint64Size

def opCall (level : Level) : Exec Outcome := do
  let _ ← pop
  let gas := (← get).callGasTemp
  let addr ← pop
  let value ← pop
  let inOffset ← pop
  let inSize ← pop
  let retOffset ← pop
  let retSize ← pop
  let args ← readMemory inOffset inSize
  if level.readOnly ∧ value ≠ 0 then return ([], some .writeProtection)
  else
    let self := (← get).contract.self
    let result ← request
      (.call self (wordAddress addr) args (withStipend gas value) value)
    settleCall result retOffset retSize

def opCallCode : Exec Outcome := do
  let _ ← pop
  let gas := (← get).callGasTemp
  let addr ← pop
  let value ← pop
  let inOffset ← pop
  let inSize ← pop
  let retOffset ← pop
  let retSize ← pop
  let args ← readMemory inOffset inSize
  let self := (← get).contract.self
  let result ← request
    (.callCode self (wordAddress addr) args (withStipend gas value) value)
  settleCall result retOffset retSize

def valuelessCall (ask : Address → Address → Bytes → Nat → Exec CallResult) : Exec Outcome := do
  let _ ← pop
  let gas := (← get).callGasTemp
  let addr ← pop
  let inOffset ← pop
  let inSize ← pop
  let retOffset ← pop
  let retSize ← pop
  let args ← readMemory inOffset inSize
  let self := (← get).contract.self
  let result ← ask self (wordAddress addr) args gas
  settleCall result retOffset retSize

def opDelegateCall : Exec Outcome :=
  valuelessCall fun caller address input gas => request (.delegateCall caller address input gas)

def opStaticCall : Exec Outcome :=
  valuelessCall fun caller address input gas => request (.staticCall caller address input gas)

def opReturn : Exec Outcome := do
  let offset ← pop
  let size ← pop
  let ret ← readMemory offset size
  return (ret, some .stopToken)

def opRevert : Exec Outcome := do
  let offset ← pop
  let size ← pop
  let ret ← readMemory offset size
  setReturnData ret
  return (ret, some .executionReverted)

def opUndefined : Exec Outcome := do
  let frame ← get
  match frame.contract.code[frame.pc]? with
  | none => panic "index out of range"
  | some byte => return ([], some (.invalidOpCode byte))

def opStop : Exec Outcome :=
  return ([], some .stopToken)

def opSelfdestruct (level : Level) : Exec Outcome := do
  if level.readOnly then return ([], some .writeProtection)
  else
    let beneficiary ← pop
    let self := (← get).contract.self
    request (.selfdestruct self (wordAddress beneficiary))
    return ([], some .stopToken)

end Octopus
