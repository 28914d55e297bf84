import Octopus.VM.GasTable

/-!
# The interpreter loop

The rules of a chain always select the London table or its Merge variant, and each entry is
what the chain of fork constructors leaves in it.  The loop is bounded by a fuel argument;
running out of it is never an outcome of the source.
-/

namespace Octopus

open Params

/-- `OpCode`, with the bytes that have no instruction in the London table. -/
inductive OpCode where
  | stop | add | mul | sub | div | sdiv | mod | smod | addmod | mulmod | exp | signextend | lt
  | gt | slt | sgt | eq | iszero | and | or | xor | not | byte | shl | shr | sar | keccak256
  | address | balance | origin | caller | callvalue | calldataload | calldatasize
  | calldatacopy | codesize | codecopy | gasprice | extcodesize | extcodecopy | returndatasize
  | returndatacopy | extcodehash | blockhash | coinbase | timestamp | number | difficulty
  | gaslimit | chainid | selfbalance | basefee | pop | mload | mstore | mstore8 | sload
  | sstore | jump | jumpi | pc | msize | gas | jumpdest | create | call | callcode | ret
  | delegatecall | create2 | staticcall | revert | selfdestruct
  | push (size : Nat)
  | dup (position : Nat)
  | swap (position : Nat)
  | log (topics : Nat)
  | undefined
  deriving DecidableEq

namespace OpCode

def ofPlainByte : Nat → OpCode
  | 0x00 => stop
  | 0x01 => add
  | 0x02 => mul
  | 0x03 => sub
  | 0x04 => div
  | 0x05 => sdiv
  | 0x06 => mod
  | 0x07 => smod
  | 0x08 => addmod
  | 0x09 => mulmod
  | 0x0a => exp
  | 0x0b => signextend
  | 0x10 => lt
  | 0x11 => gt
  | 0x12 => slt
  | 0x13 => sgt
  | 0x14 => eq
  | 0x15 => iszero
  | 0x16 => and
  | 0x17 => or
  | 0x18 => xor
  | 0x19 => not
  | 0x1a => byte
  | 0x1b => shl
  | 0x1c => shr
  | 0x1d => sar
  | 0x20 => keccak256
  | 0x30 => address
  | 0x31 => balance
  | 0x32 => origin
  | 0x33 => caller
  | 0x34 => callvalue
  | 0x35 => calldataload
  | 0x36 => calldatasize
  | 0x37 => calldatacopy
  | 0x38 => codesize
  | 0x39 => codecopy
  | 0x3a => gasprice
  | 0x3b => extcodesize
  | 0x3c => extcodecopy
  | 0x3d => returndatasize
  | 0x3e => returndatacopy
  | 0x3f => extcodehash
  | 0x40 => blockhash
  | 0x41 => coinbase
  | 0x42 => timestamp
  | 0x43 => number
  | 0x44 => difficulty
  | 0x45 => gaslimit
  | 0x46 => chainid
  | 0x47 => selfbalance
  | 0x48 => basefee
  | 0x50 => pop
  | 0x51 => mload
  | 0x52 => mstore
  | 0x53 => mstore8
  | 0x54 => sload
  | 0x55 => sstore
  | 0x56 => jump
  | 0x57 => jumpi
  | 0x58 => pc
  | 0x59 => msize
  | 0x5a => gas
  | 0x5b => jumpdest
  | 0xf0 => create
  | 0xf1 => call
  | 0xf2 => callcode
  | 0xf3 => ret
  | 0xf4 => delegatecall
  | 0xf5 => create2
  | 0xfa => staticcall
  | 0xfd => revert
  | 0xff => selfdestruct
  | _ => undefined

def ofByte (byte : Byte) : OpCode :=
  let number := byte.toNat
  if 0x60 ≤ number ∧ number ≤ 0x7f then push (number - 0x5f)
  else if 0x80 ≤ number ∧ number ≤ 0x8f then dup (number - 0x7f)
  else if 0x90 ≤ number ∧ number ≤ 0x9f then swap (number - 0x8f)
  else if 0xa0 ≤ number ∧ number ≤ 0xa4 then log (number - 0xa0)
  else ofPlainByte number

end OpCode

def Contract.getOp (contract : Contract) (position : Nat) : OpCode :=
  match contract.code[position]? with
  | some byte => .ofByte byte
  | none => .stop

structure Operation where
  execute : Exec Outcome
  constantGas : Nat
  minStack : Nat
  maxStack : Nat
  dynamicGas : Option (Nat → GasExec Nat) := none
  memorySize : Option (Exec (Option Nat)) := none

namespace Operation

def plain (pops pushes constantGas : Nat) (execute : Exec Outcome) : Operation where
  execute := execute
  constantGas := constantGas
  minStack := pops
  maxStack := stackLimit + pops - pushes

def withGas (operation : Operation) (gas : Nat → GasExec Nat) : Operation :=
  { operation with dynamicGas := some gas }

def withMemory (operation : Operation) (size : Exec (Option Nat)) (gas : Nat → GasExec Nat) :
    Operation :=
  { operation with dynamicGas := some gas, memorySize := some size }

end Operation

def gasQuickStep : Nat := 2
def gasFastestStep : Nat := 3
def gasFastStep : Nat := 5
def gasMidStep : Nat := 8
def gasSlowStep : Nat := 10
def gasExtStep : Nat := 20

variable [Crypto]

open Operation in
/-- The London instruction table; in the Merge table `DIFFICULTY` is `RANDOM`. -/
def instructionSet (ovm : OVM) (level : Level) : OpCode → Operation
  | .stop => plain 0 0 0 opStop
  | .add => plain 2 1 gasFastestStep opAdd
  | .mul => plain 2 1 gasFastStep opMul
  | .sub => plain 2 1 gasFastestStep opSub
  | .div => plain 2 1 gasFastStep opDiv
  | .sdiv => plain 2 1 gasFastStep opSdiv
  | .mod => plain 2 1 gasFastStep opMod
  | .smod => plain 2 1 gasFastStep opSmod
  | .addmod => plain 3 1 gasMidStep opAddmod
  | .mulmod => plain 3 1 gasMidStep opMulmod
  | .exp => (plain 2 1 0 opExp).withGas gasExpEIP158
  | .signextend => plain 2 1 gasFastStep opSignExtend
  | .lt => plain 2 1 gasFastestStep opLt
  | .gt => plain 2 1 gasFastestStep opGt
  | .slt => plain 2 1 gasFastestStep opSlt
  | .sgt => plain 2 1 gasFastestStep opSgt
  | .eq => plain 2 1 gasFastestStep opEq
  | .iszero => plain 1 1 gasFastestStep opIszero
  | .and => plain 2 1 gasFastestStep opAnd
  | .or => plain 2 1 gasFastestStep opOr
  | .xor => plain 2 1 gasFastestStep opXor
  | .not => plain 1 1 gasFastestStep opNot
  | .byte => plain 2 1 gasFastestStep opByte
  | .shl => plain 2 1 gasFastestStep opSHL
  | .shr => plain 2 1 gasFastestStep opSHR
  | .sar => plain 2 1 gasFastestStep opSAR
  | .keccak256 => (plain 2 1 keccak256Gas (opKeccak256 ovm)).withMemory
      memoryKeccak256 gasKeccak256
  | .address => plain 0 1 gasQuickStep opAddress
  | .balance => (plain 1 1 warmStorageReadCostEIP2929 opBalance).withGas
      gasEip2929AccountCheck
  | .origin => plain 0 1 gasQuickStep (opOrigin ovm)
  | .caller => plain 0 1 gasQuickStep opCaller
  | .callvalue => plain 0 1 gasQuickStep opCallValue
  | .calldataload => plain 1 1 gasFastestStep opCallDataLoad
  | .calldatasize => plain 0 1 gasQuickStep opCallDataSize
  | .calldatacopy => (plain 3 0 gasFastestStep opCallDataCopy).withMemory
      memoryCallDataCopy gasCallDataCopy
  | .codesize => plain 0 1 gasQuickStep opCodeSize
  | .codecopy => (plain 3 0 gasFastestStep opCodeCopy).withMemory memoryCodeCopy gasCodeCopy
  | .gasprice => plain 0 1 gasQuickStep (opGasprice ovm)
  | .extcodesize => (plain 1 1 warmStorageReadCostEIP2929 opExtCodeSize).withGas
      gasEip2929AccountCheck
  | .extcodecopy => (plain 4 0 warmStorageReadCostEIP2929 opExtCodeCopy).withMemory
      memoryExtCodeCopy gasExtCodeCopyEIP2929
  | .returndatasize => plain 0 1 gasQuickStep opReturnDataSize
  | .returndatacopy => (plain 3 0 gasFastestStep opReturnDataCopy).withMemory
      memoryReturnDataCopy gasReturnDataCopy
  | .extcodehash => (plain 1 1 warmStorageReadCostEIP2929 opExtCodeHash).withGas
      gasEip2929AccountCheck
  | .blockhash => plain 1 1 gasExtStep (opBlockhash ovm)
  | .coinbase => plain 0 1 gasQuickStep (opCoinbase ovm)
  | .timestamp => plain 0 1 gasQuickStep (opTimestamp ovm)
  | .number => plain 0 1 gasQuickStep (opNumber ovm)
  | .difficulty =>
    plain 0 1 gasQuickStep (if ovm.rules.isMerge then opRandom ovm else opDifficulty ovm)
  | .gaslimit => plain 0 1 gasQuickStep (opGasLimit ovm)
  | .chainid => plain 0 1 gasQuickStep (opChainID ovm)
  | .selfbalance => plain 0 1 gasFastStep opSelfBalance
  | .basefee => plain 0 1 gasQuickStep (opBaseFee ovm)
  | .pop => plain 1 0 gasQuickStep opPop
  | .mload => (plain 1 1 gasFastestStep opMload).withMemory memoryMLoad gasMLoad
  | .mstore => (plain 2 0 gasFastestStep opMstore).withMemory memoryMStore gasMStore
  | .mstore8 => (plain 2 0 gasFastestStep opMstore8).withMemory memoryMStore8 gasMStore8
  | .sload => (plain 1 1 0 opSload).withGas gasSLoadEIP2929
  | .sstore => (plain 2 0 0 (opSstore level)).withGas gasSStoreEIP3529
  | .jump => plain 1 0 gasMidStep (opJump ovm)
  | .jumpi => plain 2 0 gasSlowStep (opJumpi ovm)
  | .pc => plain 0 1 gasQuickStep opPc
  | .msize => plain 0 1 gasQuickStep opMsize
  | .gas => plain 0 1 gasQuickStep opGas
  | .jumpdest => plain 0 0 jumpdestGas opJumpdest
  | .create => (plain 3 1 createGas (opCreate ovm level)).withMemory memoryCreate gasCreate
  | .call => (plain 7 1 warmStorageReadCostEIP2929 (opCall level)).withMemory
      memoryCall (gasCallEIP2929 ovm)
  | .callcode => (plain 7 1 warmStorageReadCostEIP2929 opCallCode).withMemory
      memoryCall (gasCallCodeEIP2929 ovm)
  | .ret => (plain 2 0 0 opReturn).withMemory memoryReturn gasReturn
  | .delegatecall => (plain 6 1 warmStorageReadCostEIP2929 opDelegateCall).withMemory
      memoryDelegateCall (gasDelegateCallEIP2929 ovm)
  | .create2 => (plain 4 1 create2Gas (opCreate2 level)).withMemory memoryCreate2 gasCreate2
  | .staticcall => (plain 6 1 warmStorageReadCostEIP2929 opStaticCall).withMemory
      memoryStaticCall (gasStaticCallEIP2929 ovm)
  | .revert => (plain 2 0 0 opRevert).withMemory memoryRevert gasRevert
  | .selfdestruct => (plain 1 0 selfdestructGasEIP150 (opSelfdestruct level)).withGas
      gasSelfdestructEIP3529
  | .push size => plain 0 1 gasFastestStep (if size = 1 then opPush1 else makePush size)
  | .dup position => plain position (position + 1) gasFastestStep (makeDup position)
  | .swap position => plain (position + 1) (position + 1) gasFastestStep (makeSwap position)
  | .log topics =>
    (plain (topics + 2) 0 0 (makeLog ovm level topics)).withMemory memoryLog (makeGasLog topics)
  | .undefined => plain 0 0 0 opUndefined

def requiredMemory (operation : Operation) : GasExec Nat := do
  match operation.memorySize with
  | none => return 0
  | some size =>
    let size ← orOverflow (← size)
    orOverflow (safeMul (toWordSize size) 32)

/-- Charge the dynamic gas and expand the memory.  An error of the memory size is returned as it
is; an error of the gas function, or too little gas, is out of gas. -/
def chargeDynamic (operation : Operation) : Exec (Option VMError) := do
  match operation.dynamicGas with
  | none => return none
  | some dynamicGas =>
    match ← (requiredMemory operation).run with
    | .error err => return some err
    | .ok memorySize =>
      match ← (dynamicGas memorySize).run with
      | .error _ => return some .outOfGas
      | .ok cost =>
        if ← useGas cost then
          if memorySize > 0 then
            modify fun frame => { frame with memory := frame.memory.resize memorySize }
          return none
        else return some .outOfGas

/-- One round of the loop: no result means that the loop goes on. -/
def stepInstruction (ovm : OVM) (level : Level) : Exec (Option Outcome) := do
  let frame ← get
  let operation := instructionSet ovm level (frame.contract.getOp frame.pc)
  if frame.stack.length < operation.minStack then
    return some ([], some (.stackUnderflow frame.stack.length operation.minStack))
  else if frame.stack.length > operation.maxStack then
    return some ([], some (.stackOverflow frame.stack.length operation.maxStack))
  else if ← useGas operation.constantGas then
    match ← chargeDynamic operation with
    | some err => return some ([], some err)
    | none =>
      match ← operation.execute with
      | (_, none) =>
        modify fun frame => { frame with pc := (frame.pc + 1) % uint64Size }
        return none
      | (res, some err) => return some (res, some err)
  else return some ([], some .gasUsedUp)

def runLoop (ovm : OVM) (level : Level) : Nat → Exec Outcome
  | 0 => fun _ => .fail .outOfFuel
  | fuel + 1 => do
      match ← stepInstruction ovm level with
      | some outcome => return outcome
      | none => runLoop ovm level fuel

end Octopus
