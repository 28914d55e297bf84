import Octopus.Entity.Block
import Octopus.VM.Transfer

/-!
# The machine of one call frame

An instruction changes the frame it runs in and reaches everything else by asking a
`Request`.  The interpreter keeps `returnData`, `callGasTemp`, `readOnly` and the call depth
in objects that all frames share; instructions overwrite the first two and frames restore
the others, so they are kept per frame here.  An access outside the stack or the memory is
a panic; slices of the memory are bounded by its length, as the expansion before every
access makes its capacity irrelevant.
-/

namespace Octopus

inductive VMError where
  | outOfGas
  /-- The untyped error that the interpreter loop and the precompiled contracts
  return when gas runs out. -/
  | gasUsedUp
  | codeStoreOutOfGas
  | depth
  /-- The untyped error of `Call` past the depth limit. -/
  | callDepth
  | insufficientBalance
  | contractAddressCollision
  | executionReverted
  | maxCodeSizeExceeded
  | invalidJump
  | writeProtection
  | returnDataOutOfBounds
  | gasUintOverflow
  | invalidCode
  | nonceUintOverflow
  | reentrancySentry
  | stackUnderflow (stackLen required : Nat)
  | stackOverflow (stackLen limit : Nat)
  | invalidOpCode (opcode : Byte)
  /-- `errStopToken`, which ends the loop and is never returned. -/
  | stopToken
  deriving DecidableEq

structure Memory where
  store : Bytes := []
  lastGasCost : Nat := 0
  deriving DecidableEq

/-- `Contract`.  The code address is never read and is left out. -/
structure Contract where
  callerAddress : Address
  self : Address
  analysis : Option Bytes := none
  code : Bytes
  codeHash : Hash
  input : Bytes := []
  gas : Nat
  value : Int
  deriving DecidableEq

/-- The state of a running frame.  The head of the list is the top of the
stack. -/
structure Frame where
  contract : Contract
  pc : Nat := 0
  stack : List Word := []
  memory : Memory := {}
  returnData : Bytes := []
  callGasTemp : Nat := 0
  deriving DecidableEq

structure Level where
  depth : Nat := 0
  readOnly : Bool := false
  deriving DecidableEq

structure CallResult where
  ret : Bytes
  leftOverGas : Nat
  err : Option VMError
  deriving DecidableEq

structure CreateResult where
  ret : Bytes
  contractAddr : Address
  leftOverGas : Nat
  err : Option VMError
  deriving DecidableEq

/-- What an instruction can ask for outside its frame: the state database, the shared jump
destination analyses, and new frames, whose caller is the running contract.  The three
database calls of a self-destruct are one request. -/
inductive Request where
  | getBalance (address : Address)
  | getCode (address : Address)
  | getCodeSize (address : Address)
  | getCodeHash (address : Address)
  | empty (address : Address)
  | exist (address : Address)
  | getState (address : Address) (key : Hash)
  | getCommittedState (address : Address) (key : Hash)
  | setState (address : Address) (key value : Hash)
  | selfdestruct (address beneficiary : Address)
  | addRefund (gas : Nat)
  | subRefund (gas : Nat)
  | addLog (log : Log)
  | addPreimage (hash : Hash) (preimage : Bytes)
  | addressInAccessList (address : Address)
  | slotInAccessList (address : Address) (slot : Hash)
  | addAddressToAccessList (address : Address)
  | addSlotToAccessList (address : Address) (slot : Hash)
  | sharedAnalysis (codeHash : Hash)
  | shareAnalysis (codeHash : Hash) (analysis : Bytes)
  | call (caller address : Address) (input : Bytes) (gas : Nat) (value : Word)
  | callCode (caller address : Address) (input : Bytes) (gas : Nat) (value : Word)
  | delegateCall (caller address : Address) (input : Bytes) (gas : Nat)
  | staticCall (caller address : Address) (input : Bytes) (gas : Nat)
  | create (caller : Address) (code : Bytes) (gas : Nat) (value : Word)
  | create2 (caller : Address) (code : Bytes) (gas : Nat) (endowment : Word) (salt : Word)

abbrev Request.Reply : Request → Type
  | getBalance _ => Int
  | getCode _ => Bytes
  | getCodeSize _ => Nat
  | getCodeHash _ => Hash
  | empty _ => Bool
  | exist _ => Bool
  | getState _ _ => Hash
  | getCommittedState _ _ => Hash
  | slotInAccessList _ _ => Bool × Bool
  | addressInAccessList _ => Bool
  | sharedAnalysis _ => Option Bytes
  | call _ _ _ _ _ => CallResult
  | callCode _ _ _ _ _ => CallResult
  | delegateCall _ _ _ _ => CallResult
  | staticCall _ _ _ _ => CallResult
  | create _ _ _ _ => CreateResult
  | create2 _ _ _ _ _ => CreateResult
  | _ => Unit

abbrev Exec := StateT Frame (Library.Interaction Fault Request Request.Reply)

abbrev GasExec := ExceptT VMError Exec

abbrev Outcome := Bytes × Option VMError

def request (question : Request) : Exec question.Reply :=
  fun frame => .ask question fun reply => .done (reply, frame)

def panic {Value : Type} (message : String) : Exec Value :=
  fun _ => .fail (.panic message)

def proceed : Exec Outcome :=
  pure ([], none)

def Word.uint64 (word : Word) : Nat :=
  word.toNat % uint64Size

def Word.isUint64 (word : Word) : Bool :=
  word.toNat < uint64Size

def int64 (number : Nat) : Int :=
  if number < 2 ^ 63 then number else number - 2 ^ 64

def safeAdd (left right : Nat) : Option Nat :=
  if left + right < uint64Size then some (left + right) else none

def safeMul (left right : Nat) : Option Nat :=
  if left * right < uint64Size then some (left * right) else none

def toWordSize (size : Nat) : Nat :=
  if size > uint64Size - 1 - 31 then (uint64Size - 1) / 32 + 1 else (size + 31) / 32

/-- `len`.  No slice is longer than the largest `int`, and a list that is stands for
none. -/
def len (data : Bytes) : Nat :=
  min data.length (2 ^ 63 - 1)

/-- A slice cut at the end of the data and padded with zeros; the end may wrap around. -/
def getData (data : Bytes) (start size : Nat) : Exec Bytes :=
  let start := min start (len data)
  let stop := min ((start + size) % uint64Size) (len data)
  if stop < start then panic "slice bounds out of range"
  else
    let slice := (data.drop start).take (stop - start)
    pure (slice ++ List.replicate ((int64 size).toNat - slice.length) 0)

def push (word : Word) : Exec Unit :=
  modify fun frame => { frame with stack := word :: frame.stack }

def pop : Exec Word := do
  let frame ← get
  match frame.stack with
  | [] => panic "index out of range"
  | top :: rest =>
    set { frame with stack := rest }
    return top

def back (position : Nat) : Exec Word := do
  let frame ← get
  match frame.stack[position]? with
  | some word => return word
  | none => panic "index out of range"

def peek : Exec Word :=
  back 0

def setTop (word : Word) : Exec Unit := do
  let _ ← pop
  push word

def dup (position : Nat) : Exec Unit := do
  push (← back (position - 1))

def swap (position : Nat) : Exec Unit := do
  let top ← peek
  let other ← back (position - 1)
  modify fun frame =>
    { frame with stack := (frame.stack.set 0 other).set (position - 1) top }

def overwrite (store : Bytes) (offset : Nat) (value : Bytes) : Bytes :=
  store.take offset ++ value ++ store.drop (offset + value.length)

namespace Memory

def resize (memory : Memory) (size : Nat) : Memory :=
  { memory with store := memory.store ++ List.replicate (size - memory.store.length) 0 }

/-- `GetPtr` and `GetCopy`, which differ only in aliasing. -/
def getPtr (memory : Memory) (offset size : Int) : Except Fault Bytes :=
  if size = 0 then .ok []
  else if offset < memory.store.length then
    if 0 ≤ offset ∧ 0 ≤ size ∧ offset + size ≤ memory.store.length then
      .ok ((memory.store.drop offset.toNat).take size.toNat)
    else .error (.panic "slice bounds out of range")
  else .ok []

def set (memory : Memory) (offset size : Nat) (value : Bytes) : Except Fault Memory :=
  if size = 0 then .ok memory
  else if (offset + size) % uint64Size > memory.store.length then
    .error (.panic "invalid memory: store empty")
  else if (offset + size) % uint64Size < offset then .error (.panic "slice bounds out of range")
  else .ok { memory with store := overwrite memory.store offset (value.take size) }

def set32 (memory : Memory) (offset : Nat) (word : Word) : Except Fault Memory :=
  if (offset + 32) % uint64Size > memory.store.length then
    .error (.panic "invalid memory: store empty")
  else if offset > memory.store.length then .error (.panic "slice bounds out of range")
  else
    .ok { memory with
      store := overwrite memory.store offset
        ((wordBytes word).take (memory.store.length - offset)) }

end Memory

def liftMemory {Value : Type} (result : Except Fault Value) : Exec Value :=
  fun frame =>
    match result with
    | .ok value => .done (value, frame)
    | .error fault => .fail fault

def readMemory (offset size : Word) : Exec Bytes := do
  liftMemory ((← get).memory.getPtr (int64 offset.uint64) (int64 size.uint64))

def writeMemory (offset size : Nat) (value : Bytes) : Exec Unit := do
  let memory ← liftMemory ((← get).memory.set offset size value)
  modify fun frame => { frame with memory := memory }

def writeWord (offset : Nat) (word : Word) : Exec Unit := do
  let memory ← liftMemory ((← get).memory.set32 offset word)
  modify fun frame => { frame with memory := memory }

def writeByte (offset : Nat) (byte : Byte) : Exec Unit := do
  let memory := (← get).memory
  if offset < memory.store.length then
    modify fun frame =>
      { frame with memory := { memory with store := memory.store.set offset byte } }
  else panic "index out of range"

def useGas (gas : Nat) : Exec Bool := do
  let contract := (← get).contract
  if contract.gas < gas then return false
  else
    modify fun frame => { frame with contract := { contract with gas := contract.gas - gas } }
    return true

def returnGas (gas : Nat) : Exec Unit :=
  modify fun frame =>
    { frame with
      contract := { frame.contract with gas := (frame.contract.gas + gas) % uint64Size } }

def setReturnData (data : Bytes) : Exec Unit :=
  modify fun frame => { frame with returnData := data }

def set1 (bits : Bytes) (position : Nat) : Bytes :=
  bits.modify (position / 8) fun byte => byte ||| (1 <<< (position % 8))

def setN (flag : BitVec 16) (bits : Bytes) (position : Nat) : Bytes :=
  let shifted := flag <<< (position % 8)
  let bits := bits.modify (position / 8) fun byte => byte ||| shifted.setWidth 8
  let high : Byte := (shifted >>> 8).setWidth 8
  if high ≠ 0 then bits.set (position / 8 + 1) high else bits

def set8 (bits : Bytes) (position : Nat) : Bytes :=
  let shifted : Byte := 0xff <<< (position % 8)
  (bits.modify (position / 8) fun byte => byte ||| shifted).set (position / 8 + 1) (~~~shifted)

def set16 (bits : Bytes) (position : Nat) : Bytes :=
  let shifted : Byte := 0xff <<< (position % 8)
  ((bits.modify (position / 8) fun byte => byte ||| shifted).set (position / 8 + 1) 0xff).set
    (position / 8 + 2) (~~~shifted)

/-- `codeSegment`; a position past the end of the vector is out of range. -/
def codeSegment (bits : Bytes) (position : Nat) : Exec Bool :=
  match bits[position / 8]? with
  | some byte => return byte.getLsbD (position % 8) == false
  | none => panic "index out of range"

/-- The marking of the immediate bytes of one push, in chunks as in the
source. -/
def markPush : Nat → Nat → Nat × Bytes → Nat × Bytes
  | 0, _, state => state
  | rounds + 1, numbits, (pc, bits) =>
    if 16 ≤ numbits then markPush rounds (numbits - 16) (pc + 16, set16 bits pc)
    else if 8 ≤ numbits then markPush rounds (numbits - 8) (pc + 8, set8 bits pc)
    else if numbits = 0 then (pc, bits)
    else if numbits = 1 then (pc + 1, set1 bits pc)
    else (pc + numbits, setN (BitVec.ofNat 16 (2 ^ numbits - 1)) bits pc)

def codeBitmapInternal (code : Bytes) : Nat → Nat → Bytes → Bytes
  | 0, _, bits => bits
  | rounds + 1, pc, bits =>
    if pc < code.length then
      let op := (code.getD pc 0).toNat
      if 0x60 ≤ op ∧ op ≤ 0x7f then
        let (pc, bits) := markPush 4 (op - 0x60 + 1) (pc + 1, bits)
        codeBitmapInternal code rounds pc bits
      else codeBitmapInternal code rounds (pc + 1) bits
    else bits

def codeBitmap (code : Bytes) : Bytes :=
  codeBitmapInternal code code.length 0 (List.replicate (code.length / 8 + 1 + 4) 0)

/-- `isCode`: the local analysis, then the one shared under the code hash; initialisation code
is analysed for itself. -/
def isCode (position : Nat) : Exec Bool := do
  let contract := (← get).contract
  match contract.analysis with
  | some analysis => codeSegment analysis position
  | none =>
    let analysis ←
      if contract.codeHash ≠ 0 then
        match ← request (.sharedAnalysis contract.codeHash) with
        | some analysis => pure analysis
        | none =>
          request (.shareAnalysis contract.codeHash (codeBitmap contract.code))
          pure (codeBitmap contract.code)
      else pure (codeBitmap contract.code)
    modify fun frame =>
      { frame with contract := { frame.contract with analysis := some analysis } }
    codeSegment analysis position

def validJumpdest (destination : Word) : Exec Bool := do
  let contract := (← get).contract
  if !destination.isUint64 || destination.uint64 ≥ contract.code.length then return false
  else if contract.code.getD destination.uint64 0 ≠ 0x5b then return false
  else isCode destination.uint64

end Octopus
