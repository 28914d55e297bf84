import Octopus.Library.Protocol
import Octopus.VM.Trace

/-!
# The rounds of a run

The log of the rounds, in a frame and in all the frames that it opens, is defined beside
the run and follows the same steps.  `callEntry` and `createEntry` are the parts of `Call`
and `create` before any code runs; they never fault.
-/

namespace Octopus

open Library Library.Computation

variable {new : World} {contract : Contract}

/-- One round of the interpreter loop: the frame before it and, if the loop goes
on, the frame after it. -/
structure Round where
  level : Level
  frame : Frame
  next : Option Frame := none

def Round.op (round : Round) : OpCode :=
  round.frame.contract.getOp round.frame.pc

abbrev RoundLog := Level → Contract → Bytes → Bool → World → List Round

def Level.enter (level : Level) (readOnly : Bool) : Level where
  depth := level.depth + 1
  readOnly := level.readOnly || readOnly

namespace OVM

variable [Crypto]

def callEntry (level : Level) (caller : ContractRef) (addr : Address) (input : Bytes)
    (gas : Nat) (value : Int) (before : World) : Except CallResult Contract × World :=
  if level.depth > Params.callCreateDepth then
    (.error { ret := [], leftOverGas := gas, err := some .callDepth }, before)
  else
    let db := transfer (canTransfer before.db addr 20).2 caller.address addr value
    match precompile addr with
    | some contract =>
      (.error (contract.runPrecompiledContract input gas), { before with db := db })
    | none =>
      let (code, db) := db.getCode addr
      if code = [] then
        (.error { ret := [], leftOverGas := gas, err := none }, { before with db := db })
      else
        let (codeHash, db) := db.getCodeHash addr
        (.ok { callerAddress := caller.address, self := addr, code := code
               codeHash := codeHash, gas := gas, value := value },
          { before.enter caller with db := db })

def createEntry (ovm : OVM) (level : Level) (caller : ContractRef) (code : Bytes)
    (codeHash : Hash) (gas : Nat) (value : Int) (address : Address) (before : World) :
    Except CreateResult Contract × World :=
  let refused (left : Nat) (err : VMError) : Except CreateResult Contract :=
    .error { ret := [], contractAddr := 0, leftOverGas := left, err := some err }
  if level.depth > Params.callCreateDepth then (refused gas .depth, before)
  else
    let (covered, db) := canTransfer before.db caller.address value
    if covered = true then
      let (nonce, db) := db.getNonce caller.address
      if (nonce + 1) % uint64Size < nonce then
        (refused gas .nonceUintOverflow, { before with db := db })
      else
        let db := db.setNonce caller.address (nonce + 1)
        let db := if ovm.rules.isBerlin then db.addAddressToAccessList address else db
        let (contractHash, db) := db.getCodeHash address
        let (contractNonce, db) := db.getNonce address
        if contractNonce ≠ 0 ∨ (contractHash ≠ 0 ∧ contractHash ≠ emptyCodeHash) then
          (refused 0 .contractAddressCollision, { before with db := db })
        else
          let db := db.createAccount address
          let db := if ovm.rules.isEIP158 then db.setNonce address 1 else db
          (.ok { callerAddress := caller.address, self := address, code := code
                 codeHash := codeHash, gas := gas, value := value },
            { before.enter caller with db := transfer db caller.address address value })
    else (refused gas .insufficientBalance, { before with db := db })

variable {runner : Runner} {level : Level} {caller : ContractRef} {addr : Address}
  {input : Bytes} {gas : Nat} {value : Int} {old : World}

theorem call_eq :
    call runner level caller addr input gas value old =
      match callEntry level caller addr input gas value old with
      | (.error res, new) => .ok (res, new)
      | (.ok contract, new) =>
        (runner level contract input false >>= fun outcome =>
          pure { ret := outcome.1.1, leftOverGas := outcome.2, err := outcome.1.2 }) new := by
  unfold call callEntry
  by_cases deep : level.depth > Params.callCreateDepth
  · simp only [if_pos deep]
    rfl
  simp only [if_neg deep, readDB_bind, writeDB_bind]
  cases precompile addr with
  | some => rfl
  | none =>
    simp only [readDB_bind]
    split
    · rfl
    · cases caller <;> rfl

variable {ovm : OVM} {code : Bytes} {codeHash : Hash} {addr : Address}

theorem create_eq :
    create ovm runner level caller code codeHash gas value addr old =
      match createEntry ovm level caller code codeHash gas value addr old with
      | (.error res, new) => .ok (res, new)
      | (.ok contract, new) =>
        (runner level contract [] false >>= fun outcome =>
          storeCode ovm addr outcome.1.1 outcome.1.2 outcome.2) new := by
  unfold create createEntry deploy
  by_cases deep : level.depth > Params.callCreateDepth
  · simp only [if_pos deep]
    rfl
  simp only [if_neg deep, readDB_bind]
  by_cases covered : (canTransfer old.db caller.address value).1 = true
  · simp only [if_pos covered, readDB_bind]
    split
    · rfl
    simp only [writeDB_bind, readDB_bind]
    generalize ite (ovm.rules.isBerlin = true) _ _ = listed
    split
    · rfl
    · cases caller <;> rfl
  · simp only [if_neg covered]
    rfl

theorem callEntry_ok
    (entered : callEntry level caller addr input gas value old = (.ok contract, new)) :
    level.depth ≤ Params.callCreateDepth ∧ contract.gas = gas ∧ contract.analysis = none ∧
      new.jumpdests = (old.enter caller).jumpdests := by
  unfold callEntry at entered
  split at entered
  · cases entered
  · next shallow =>
    split at entered
    · cases entered
    dsimp only at entered
    split at entered
    · cases entered
    · cases entered
      exact ⟨not_lt.mp shallow, rfl, rfl, rfl⟩

theorem callEntry_error {res : CallResult}
    (entered : callEntry level caller addr input gas value old = (.error res, new)) :
    res.leftOverGas ≤ gas ∧ new.jumpdests = old.jumpdests := by
  unfold callEntry at entered
  split at entered
  · cases entered
    exact ⟨le_rfl, rfl⟩
  split at entered
  · next contract found =>
    cases entered
    refine ⟨?_, rfl⟩
    unfold PrecompiledContract.runPrecompiledContract
    split
    · exact Nat.zero_le gas
    · exact Nat.sub_le gas _
  · dsimp only at entered
    split at entered
    · cases entered
      exact ⟨le_rfl, rfl⟩
    · cases entered

theorem createEntry_ok
    (entered : createEntry ovm level caller code codeHash gas value addr old =
      (.ok contract, new)) :
    level.depth ≤ Params.callCreateDepth ∧ contract.gas = gas ∧ contract.analysis = none ∧
      new.jumpdests = (old.enter caller).jumpdests := by
  unfold createEntry at entered
  dsimp only at entered
  split at entered
  · cases entered
  · next shallow =>
    split at entered
    · split at entered
      · cases entered
      generalize ite (ovm.rules.isBerlin = true) _ _ = listed at entered
      split at entered
      · cases entered
      · cases entered
        exact ⟨not_lt.mp shallow, rfl, rfl, rfl⟩
    · cases entered

theorem createEntry_error {res : CreateResult}
    (entered : createEntry ovm level caller code codeHash gas value addr old =
      (.error res, new)) : res.leftOverGas ≤ gas ∧ new.jumpdests = old.jumpdests := by
  unfold createEntry at entered
  dsimp only at entered
  split at entered
  · cases entered
    exact ⟨le_rfl, rfl⟩
  split at entered
  · split at entered
    · cases entered
      exact ⟨le_rfl, rfl⟩
    generalize ite (ovm.rules.isBerlin = true) _ _ = listed at entered
    split at entered
    · cases entered
      exact ⟨Nat.zero_le gas, rfl⟩
    · cases entered
  · cases entered
    exact ⟨le_rfl, rfl⟩

theorem storeCode_eq_ok (ret : Bytes) (err : Option VMError) :
    ∃ res new, storeCode ovm addr ret err gas old = .ok (res, new) ∧
      res.leftOverGas ≤ gas ∧ new.jumpdests = old.jumpdests := by
  unfold storeCode
  split_ifs
  iterate 4
    · exact ⟨_, _, rfl, le_rfl, rfl⟩
  · exact ⟨_, _, rfl, Nat.sub_le _ _, rfl⟩

def callRounds (rounds : RoundLog) (level : Level) (caller : ContractRef) (addr : Address)
    (input : Bytes) (gas : Nat) (value : Int) (before : World) : List Round :=
  match callEntry level caller addr input gas value before with
  | (.error _, _) => []
  | (.ok contract, after) => rounds level contract input false after

def createRounds (ovm : OVM) (rounds : RoundLog) (level : Level) (caller : ContractRef)
    (code : Bytes) (codeHash : Hash) (gas : Nat) (value : Int) (address : Address)
    (before : World) : List Round :=
  match createEntry ovm level caller code codeHash gas value address before with
  | (.error _, _) => []
  | (.ok contract, after) => rounds level contract [] false after

def createWithNonceRounds (ovm : OVM) (rounds : RoundLog) (level : Level) (caller : ContractRef)
    (code : Bytes) (gas : Nat) (value : Int) (before : World) : List Round :=
  let (nonce, db) := before.db.getNonce caller.address
  createRounds ovm rounds level caller code 0 gas value (createAddress caller.address nonce)
    { before with db := db }

def createWithSaltRounds (ovm : OVM) (rounds : RoundLog) (level : Level) (caller : ContractRef)
    (code : Bytes) (gas : Nat) (endowment : Int) (salt : Word) (before : World) : List Round :=
  createRounds ovm rounds level caller code (Crypto.keccak256 code) gas endowment
    (createAddress2 caller.address salt (Crypto.keccak256 code)) before

def requestRounds (ovm : OVM) (rounds : RoundLog) (level : Level) : Request → World → List Round
  | .call caller address input gas value =>
    callRounds rounds level (.contract caller) address input gas value.toNat
  | .create caller code gas value =>
    createWithNonceRounds ovm rounds level (.contract caller) code gas value.toNat
  | .create2 caller code gas endowment salt =>
    createWithSaltRounds ovm rounds level (.contract caller) code gas endowment.toNat salt
  | _ => fun _ => []

/-- The rounds of the interpreter loop, each followed by those of the frames that it opens. -/
def loopRounds (ovm : OVM) (level : Level)
    (handler : (question : Request) → Go World question.Reply)
    (opened : Request → World → List Round) : Nat → Frame → World → List Round
  | 0, _, _ => []
  | fuel + 1, frame, before =>
    let children := (stepInstruction ovm level frame).performLog handler opened before
    match (stepInstruction ovm level frame).perform handler before with
    | .ok ((none, next), after) =>
      { level := level, frame := frame, next := some next } ::
        (children ++ loopRounds ovm level handler opened fuel next after)
    | _ => { level := level, frame := frame } :: children

def guardedAnswer (guard : Guard) (ovm : OVM) (runner : Runner) (level : Level)
    (question : Request) : Go World question.Reply :=
  (answer ovm runner level question).restrict (guard level question) (.panic "rejected")

def startFrame (contract : Contract) (input : Bytes) : Frame where
  contract := { contract with input := input }

def guardedRounds (guard : Guard) (ovm : OVM) : Nat → RoundLog
  | 0 => fun _ _ _ _ _ => []
  | fuel + 1 => fun level contract input readOnly before =>
    if contract.code = [] then []
    else
      loopRounds ovm (level.enter readOnly)
        (guardedAnswer guard ovm (guardedRun guard ovm fuel) (level.enter readOnly))
        (fun question world =>
          if guard (level.enter readOnly) question world then
            requestRounds ovm (guardedRounds guard ovm fuel) (level.enter readOnly) question world
          else [])
        fuel (startFrame contract input) before

def rounds (ovm : OVM) : Nat → RoundLog :=
  guardedRounds (fun _ _ _ => true) ovm

theorem perform_runLoop (handler : (query : Request) → Go World query.Reply) (fuel : Nat)
    (frame : Frame) (old : World) : (runLoop ovm level (fuel + 1) frame).perform handler old =
      match (stepInstruction ovm level frame).perform handler old with
      | .error reason => .error reason
      | .ok ((some outcome, next), new) => .ok ((outcome, next), new)
      | .ok ((none, next), new) => (runLoop ovm level fuel next).perform handler new := by
  change ((stepInstruction ovm level frame).andThen _).perform handler old = _
  rw [Interaction.perform_andThen, bind_apply]
  rcases (stepInstruction ovm level frame).perform handler old with
    reason | ⟨⟨_ | outcome, next⟩, new⟩ <;> rfl

theorem runFrame_of_code (handler : Level → (query : Request) → Go World query.Reply)
    (fuel : Nat) (readOnly : Bool) (nonempty : contract.code ≠ []) :
    runFrame ovm fuel handler level contract input readOnly old =
      match (runLoop ovm (level.enter readOnly) fuel (startFrame contract input)).perform
          (handler (level.enter readOnly)) old with
      | .error reason => .error reason
      | .ok ((outcome, frame), new) =>
        .ok (((outcome.1, if outcome.2 = some .stopToken then none else outcome.2),
          frame.contract.gas), new) := by
  unfold runFrame Level.enter startFrame
  rw [if_neg nonempty, bind_apply]
  generalize Interaction.perform _ _ old = run
  rcases run with reason | ⟨⟨outcome, frame⟩, new⟩ <;> rfl

theorem guardedRun_succ (guard : Guard) (fuel : Nat) :
    guardedRun guard ovm (fuel + 1) =
      runFrame ovm fuel (guardedAnswer guard ovm (guardedRun guard ovm fuel)) := rfl

end OVM

end Octopus
