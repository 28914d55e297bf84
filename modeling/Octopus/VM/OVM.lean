import Octopus.VM.Interpreter

/-!
# Frames

`OVM.Call`, `OVM.create` and their siblings take the function that runs a contract as an
argument; `run` closes the recursion, one unit of fuel for each level of nesting.  `Call`
drops the result of its `CanTransfer`, and neither `Call` nor `create` undoes anything on an
error.  `CallCode`, `DelegateCall` and `StaticCall` ask for a snapshot, which panics.
-/

namespace Octopus

open Params Library.Computation

/-- The state that frames share: the state database and the jump destination
analyses of the running transaction. -/
structure World where
  db : OperationDB
  jumpdests : Hash → Option Bytes := fun _ => none

/-- `ContractRef`: the caller of a frame is a plain account or a contract. -/
inductive ContractRef where
  | account (address : Address)
  | contract (address : Address)
  deriving DecidableEq

def ContractRef.address : ContractRef → Address
  | account address => address
  | contract address => address

/-- Run a contract on an input, possibly read-only: the outcome and the gas
left in the contract. -/
abbrev Runner := Level → Contract → Bytes → Bool → Go World (Outcome × Nat)

def readDB {Value : Type} (read : OperationDB → Value × OperationDB) : Go World Value :=
  fun world => .ok ((read world.db).1, { world with db := (read world.db).2 })

def writeDB (write : OperationDB → OperationDB) : Go World Unit :=
  fun world => .ok ((), { world with db := write world.db })

/-- `NewContract`: a frame that a plain account opens starts with no shared
analyses. -/
def World.enter (caller : ContractRef) (world : World) : World :=
  match caller with
  | .account _ => { world with jumpdests := fun _ => none }
  | .contract _ => world

def enterFrame (caller : ContractRef) : Go World Unit :=
  fun world => .ok ((), world.enter caller)

inductive PrecompiledContract where
  | ecrecover
  | sha256hash
  | ripemd160hash
  | dataCopy
  deriving DecidableEq

/-- `OVM.precompile`, which uses the Homestead set whatever the rules say. -/
def precompile (address : Address) : Option PrecompiledContract :=
  if address = 1 then some .ecrecover
  else if address = 2 then some .sha256hash
  else if address = 3 then some .ripemd160hash
  else if address = 4 then some .dataCopy
  else none

namespace PrecompiledContract

def perWordGas (input : Bytes) (perWord base : Nat) : Nat :=
  (input.length + 31) / 32 * perWord + base

def requiredGas (input : Bytes) : PrecompiledContract → Nat
  | ecrecover => ecrecoverGas
  | sha256hash => perWordGas input sha256PerWordGas sha256BaseGas
  | ripemd160hash => perWordGas input ripemd160PerWordGas ripemd160BaseGas
  | dataCopy => perWordGas input identityPerWordGas identityBaseGas

def secp256k1N : Nat :=
  0xfffffffffffffffffffffffffffffffebaaedce6af48a03bbfd25e8cd0364141

def validateSignatureValues (v : Byte) (r s : Nat) : Bool :=
  1 ≤ r && 1 ≤ s && r < secp256k1N && s < secp256k1N && (v == 0 || v == 1)

variable [Crypto]

def run (input : Bytes) : PrecompiledContract → Bytes
  | ecrecover =>
    let padded := Bytes.window input 0 (max input.length 128)
    let r := Bytes.toWord (Bytes.window padded 64 32)
    let s := Bytes.toWord (Bytes.window padded 96 32)
    let v : Byte := padded.getD 63 0 - 27
    if ((padded.drop 32).take 31).all (· == 0) && validateSignatureValues v r.toNat s.toNat then
      match Crypto.ecrecover (Bytes.toWord (padded.take 32)) v r s with
      | some address => wordBytes (addressWord address)
      | none => []
    else []
  | sha256hash => wordBytes (Crypto.sha256 input)
  | ripemd160hash => wordBytes ((Crypto.ripemd160 input).setWidth 256)
  | dataCopy => input

def runPrecompiledContract (contract : PrecompiledContract) (input : Bytes)
    (suppliedGas : Nat) : CallResult :=
  if suppliedGas < contract.requiredGas input then
    { ret := [], leftOverGas := 0, err := some .gasUsedUp }
  else
    { ret := contract.run input, leftOverGas := suppliedGas - contract.requiredGas input
      err := none }

end PrecompiledContract

namespace OVM

variable [Crypto]

def call (runner : Runner) (level : Level) (caller : ContractRef) (addr : Address)
    (input : Bytes) (gas : Nat) (value : Int) : Go World CallResult := do
  if level.depth > callCreateDepth then
    return { ret := [], leftOverGas := gas, err := some .callDepth }
  else
    let _ ← readDB fun db => canTransfer db addr 20
    writeDB fun db => transfer db caller.address addr value
    match precompile addr with
    | some contract => return contract.runPrecompiledContract input gas
    | none =>
      let code ← readDB fun db => db.getCode addr
      if code = [] then return { ret := [], leftOverGas := gas, err := none }
      else
        enterFrame caller
        let codeHash ← readDB fun db => db.getCodeHash addr
        let ((ret, err), gas) ← runner level
          { callerAddress := caller.address, self := addr, code := code
            codeHash := codeHash, gas := gas, value := value } input false
        return { ret := ret, leftOverGas := gas, err := err }

def callCode (level : Level) (caller : Address) (gas : Nat) (value : Int) :
    Go World CallResult := do
  if level.depth > callCreateDepth then return { ret := [], leftOverGas := gas, err := some .depth }
  else if ← readDB fun db => canTransfer db caller value then fault (.panic "implement me")
  else return { ret := [], leftOverGas := gas, err := some .insufficientBalance }

/-- `DelegateCall` and `StaticCall`, up to the snapshot that panics. -/
def snapshotCall (level : Level) (gas : Nat) : Go World CallResult := do
  if level.depth > callCreateDepth then return { ret := [], leftOverGas := gas, err := some .depth }
  else fault (.panic "implement me")

/-- The end of `create`: check the code that the initialisation returned, pay
for it and store it. -/
def storeCode (ovm : OVM) (address : Address) (ret : Bytes) (err : Option VMError) (gas : Nat) :
    Go World CreateResult := do
  let result : CreateResult :=
    { ret := ret, contractAddr := address, leftOverGas := gas, err := err }
  if err ≠ none then return result
  else if ovm.rules.isEIP158 && ret.length > maxCodeSize then
    return { result with err := some .maxCodeSizeExceeded }
  else if ret.head? = some 0xef && ovm.rules.isLondon then
    return { result with err := some .invalidCode }
  else if gas < ret.length * createDataGas then
    return { result with err := some .codeStoreOutOfGas }
  else
    writeDB fun db => db.setCode address ret
    return { result with leftOverGas := gas - ret.length * createDataGas }

/-- `create` after the address is found free: open the account, endow it, run the code and store
what it returns. -/
def deploy (ovm : OVM) (runner : Runner) (level : Level) (caller : ContractRef)
    (code : Bytes) (codeHash : Hash) (gas : Nat) (value : Int) (address : Address) :
    Go World CreateResult := do
  writeDB fun db => db.createAccount address
  writeDB fun db => if ovm.rules.isEIP158 then db.setNonce address 1 else db
  writeDB fun db => transfer db caller.address address value
  enterFrame caller
  let ((ret, err), gas) ← runner level
    { callerAddress := caller.address, self := address, code := code, codeHash := codeHash
      gas := gas, value := value } [] false
  storeCode ovm address ret err gas

/-- `create`; on an error before the account is opened no address is returned. -/
def create (ovm : OVM) (runner : Runner) (level : Level) (caller : ContractRef)
    (code : Bytes) (codeHash : Hash) (gas : Nat) (value : Int) (address : Address) :
    Go World CreateResult := do
  if level.depth > callCreateDepth then
    return { ret := [], contractAddr := 0, leftOverGas := gas, err := some .depth }
  else if ← readDB fun db => canTransfer db caller.address value then
    let nonce ← readDB fun db => db.getNonce caller.address
    if (nonce + 1) % uint64Size < nonce then
      return { ret := [], contractAddr := 0, leftOverGas := gas, err := some .nonceUintOverflow }
    else
      writeDB fun db => db.setNonce caller.address (nonce + 1)
      writeDB fun db => if ovm.rules.isBerlin then db.addAddressToAccessList address else db
      let contractHash ← readDB fun db => db.getCodeHash address
      let contractNonce ← readDB fun db => db.getNonce address
      if contractNonce ≠ 0 ∨ (contractHash ≠ 0 ∧ contractHash ≠ emptyCodeHash) then
        return { ret := [], contractAddr := 0, leftOverGas := 0
                 err := some .contractAddressCollision }
      else deploy ovm runner level caller code codeHash gas value address
  else return { ret := [], contractAddr := 0, leftOverGas := gas, err := some .insufficientBalance }

/-- `Create`: the address comes from the creator and its nonce, and the
initialisation code carries no hash. -/
def createWithNonce (ovm : OVM) (runner : Runner) (level : Level) (caller : ContractRef)
    (code : Bytes) (gas : Nat) (value : Int) : Go World CreateResult := do
  let nonce ← readDB fun db => db.getNonce caller.address
  create ovm runner level caller code 0 gas value (createAddress caller.address nonce)

def createWithSalt (ovm : OVM) (runner : Runner) (level : Level) (caller : ContractRef)
    (code : Bytes) (gas : Nat) (endowment : Int) (salt : Word) : Go World CreateResult :=
  let codeHash := Crypto.keccak256 code
  create ovm runner level caller code codeHash gas endowment
    (createAddress2 caller.address salt codeHash)

def answer (ovm : OVM) (runner : Runner) (level : Level) :
    (question : Request) → Go World question.Reply
  | .getBalance address => readDB fun db => db.getBalance address
  | .getCode address => readDB fun db => db.getCode address
  | .getCodeSize address => readDB fun db => db.getCodeSize address
  | .getCodeHash address => readDB fun db => db.getCodeHash address
  | .empty address => readDB fun db => db.empty address
  | .exist address => readDB fun db => db.exist address
  | .getState address key => readDB fun db => db.getState address key
  | .getCommittedState address key => readDB fun db => db.getCommittedState address key
  | .setState address key value => writeDB fun db => db.setState address key value
  | .selfdestruct address beneficiary =>
    writeDB fun db =>
      let (balance, db) := db.getBalance address
      ((db.addBalance beneficiary balance).suicide address).2
  | .addRefund gas => writeDB fun db => db.addRefund gas
  | .subRefund gas => fun world =>
    match world.db.subRefund gas with
    | .ok db => .ok ((), { world with db := db })
    | .error fault => .error fault
  | .addLog log => writeDB fun db => db.addLog log
  | .addPreimage _ _ => fault (.panic "implement me")
  | .addressInAccessList address => readDB fun db => (db.addressInAccessList address, db)
  | .slotInAccessList address slot => readDB fun db => (db.slotInAccessList address slot, db)
  | .addAddressToAccessList address => writeDB fun db => db.addAddressToAccessList address
  | .addSlotToAccessList address slot => writeDB fun db => db.addSlotToAccessList address slot
  | .sharedAnalysis codeHash => fun world => .ok (world.jumpdests codeHash, world)
  | .shareAnalysis codeHash analysis =>
    modify fun world =>
      { world with jumpdests := Function.update world.jumpdests codeHash (some analysis) }
  | .call caller address input gas value =>
    call runner level (.contract caller) address input gas value.toNat
  | .callCode caller _ _ gas value => callCode level caller gas value.toNat
  | .delegateCall _ _ _ gas => snapshotCall level gas
  | .staticCall _ _ _ gas => snapshotCall level gas
  | .create caller code gas value =>
    createWithNonce ovm runner level (.contract caller) code gas value.toNat
  | .create2 caller code gas endowment salt =>
    createWithSalt ovm runner level (.contract caller) code gas endowment.toNat salt

/-- The interpreter loop on a fresh stack and memory, one level down. -/
def runFrame (ovm : OVM) (fuel : Nat)
    (handler : Level → (question : Request) → Go World question.Reply) : Runner :=
  fun level contract input readOnly => do
    let level : Level := { depth := level.depth + 1, readOnly := level.readOnly || readOnly }
    if contract.code = [] then return (([], none), contract.gas)
    else
      let ((ret, err), frame) ←
        ((runLoop ovm level fuel) { contract := { contract with input := input } }).perform
          (handler level)
      return ((ret, if err = some .stopToken then none else err), frame.contract.gas)

def run (ovm : OVM) : Nat → Runner
  | 0 => fun _ _ _ _ => fault .outOfFuel
  | fuel + 1 => runFrame ovm fuel (answer ovm (run ovm fuel))

end OVM

attribute [local instance] sampleCrypto

def sampleOVM : OVM where
  context := { getHash := fun _ => 0, coinbase := 0, gasLimit := 0, blockNumber := 1, time := 0
               difficulty := 0, baseFee := none, random := none }
  txContext := { origin := 0x11, gasPrice := 1 }
  chainConfig := {}
  enablePreimageRecording := false
  abort := false

def twoAccountsDB : OperationDB where
  database := {}
  originalRoot := 1
  trie := fun address =>
    if address = 0x11 then some (.holding 1000000)
    else if address = 0x22 then some (.holding 5)
    else none

def contractDB (code : Bytes) (codeHash : Hash) : OperationDB where
  database := { codes := fun hash => if hash = codeHash then some code else none }
  originalRoot := 1
  trie := fun address =>
    if address = 0xc0 then
      some { nonce := 1, balance := 10, root := emptyRoot, codeHash := codeHash }
    else twoAccountsDB.trie address

end Octopus
