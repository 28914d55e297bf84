import Octopus.VM.Trace

/-!
# The state transition of a message

`ApplyMessage` buys the gas of a message, checks that it covers the intrinsic gas and the
value, and opens the outermost frame.  Nothing undoes the purchase when a check fails, what
is left of the gas is not paid back, and no nonce is checked.
-/

namespace Octopus

/-- `block.Message`, with the fields that the transition reads and the nonce. -/
structure Message where
  sender : Address
  recipient : Option Address
  nonce : Nat
  value : Int
  gas : Nat
  gasPrice : Int
  gasFeeCap : Option Int
  data : Bytes := []
  isFake : Bool := false
  nonce_lt : nonce < uint64Size := by decide
  gas_lt : gas < uint64Size := by decide
  deriving DecidableEq

inductive TransitionError where
  | insufficientFunds (address : Address) (available want : Int)
  | gasLimitReached
  | gasUintOverflow
  | intrinsicGasTooLow (available want : Nat)
  | insufficientFundsForTransfer (address : Address)
  deriving DecidableEq

structure ExecutionResult where
  usedGas : Nat
  err : Option VMError
  returnData : Bytes
  deriving DecidableEq

structure TransitionState where
  db : OperationDB
  gasPool : Nat

def intrinsicGas (data : Bytes) : Except TransitionError Nat :=
  let gas := Params.txGas
  if data = [] then .ok gas
  else
    let nonZeroBytes := data.countP (· ≠ 0)
    if (uint64Size - 1 - gas) / Params.txDataNonZeroGasFrontier < nonZeroBytes then
      .error .gasUintOverflow
    else
      let gas := gas + nonZeroBytes * Params.txDataNonZeroGasFrontier
      let zeroBytes := data.length - nonZeroBytes
      if (uint64Size - 1 - gas) / Params.txDataZeroGas < zeroBytes then .error .gasUintOverflow
      else .ok (gas + zeroBytes * Params.txDataZeroGas)

def gasUsed (initialGas gas : Nat) : Nat :=
  (initialGas + (uint64Size - gas % uint64Size)) % uint64Size

namespace Message

/-- `mgval`, the price of the whole gas limit. -/
def purchase (message : Message) : Int :=
  message.gas * message.gasPrice

def balanceCheck (message : Message) : Int :=
  match message.gasFeeCap with
  | none => message.purchase
  | some gasFeeCap => message.gas * gasFeeCap + message.value

end Message

variable [Crypto]

def buyGas (message : Message) (state : TransitionState) :
    Except TransitionError Unit × TransitionState :=
  let (available, db) := state.db.getBalance message.sender
  if available < message.balanceCheck then
    (.error (.insufficientFunds message.sender available message.balanceCheck),
      { state with db := db })
  else if state.gasPool < message.gas then (.error .gasLimitReached, { state with db := db })
  else
    (.ok (), { db := db.subBalance message.sender message.purchase
               gasPool := state.gasPool - message.gas })

/-- The checks of `TransitionDb`: the gas that is left for the frame, or the
first check that fails. -/
def admission (message : Message) (state : TransitionState) :
    Except TransitionError Nat × TransitionState :=
  match buyGas message state with
  | (.error error, state) => (.error error, state)
  | (.ok (), state) =>
    match intrinsicGas message.data with
    | .error error => (.error error, state)
    | .ok gas =>
      if message.gas < gas then (.error (.intrinsicGasTooLow message.gas gas), state)
      else if message.value > 0 then
        let (covered, db) := canTransfer state.db message.sender message.value
        if covered then (.ok (message.gas - gas), { state with db := db })
        else (.error (.insufficientFundsForTransfer message.sender), { state with db := db })
      else (.ok (message.gas - gas), state)

/-- The outermost frame.  A call bumps the nonce of the sender first; a
creation leaves that to `create`. -/
def execute (ovm : OVM) (runner : Runner) (message : Message) (gas : Nat) :
    Go World CallResult := do
  match message.recipient with
  | none =>
    let result ← ovm.createWithNonce runner {} (.account message.sender) message.data gas
      message.value
    return { ret := result.ret, leftOverGas := result.leftOverGas, err := result.err }
  | some recipient =>
    let nonce ← readDB fun db => db.getNonce message.sender
    writeDB fun db => db.setNonce message.sender ((nonce + 1) % uint64Size)
    OVM.call runner {} (.account message.sender) recipient message.data gas
      message.value

/-- `ApplyMessage`.  An error is returned with the state as the failed
transition left it. -/
def applyMessage (ovm : OVM) (runner : Runner) (message : Message) :
    Go TransitionState (Except TransitionError ExecutionResult) := fun state =>
  match admission message state with
  | (.error error, state) => .ok (.error error, state)
  | (.ok gas, state) =>
    match execute ovm runner message gas { db := state.db } with
    | .error fault => .error fault
    | .ok (result, world) =>
      .ok (.ok { usedGas := gasUsed message.gas result.leftOverGas
                 err := result.err, returnData := result.ret },
        { state with db := world.db })

namespace Message

def purchased (message : Message) (ledger : Ledger) : Ledger :=
  ledger.addBalance message.sender (-message.purchase)

/-- The sender holds what `buyGas` asks for, and the pool has the gas. -/
def Purchasable (message : Message) (ledger : Ledger) (gasPool : Nat) : Prop :=
  message.balanceCheck ≤ ledger.balance message.sender ∧ message.gas ≤ gasPool

def Executable (message : Message) (ledger : Ledger) : Prop :=
  (∃ gas, intrinsicGas message.data = .ok gas ∧ gas ≤ message.gas) ∧
    (0 < message.value → message.value ≤ (message.purchased ledger).balance message.sender)

end Message

def Message.Purchases (message : Message) (before after : OperationDB) : Prop :=
  ∃ bought, Quiet before bought ∧ Quiet (bought.subBalance message.sender message.purchase) after

theorem Message.Purchases.ledger {msg : Message} {old new : OperationDB}
    (purchases : msg.Purchases old new) : new.ledger = msg.purchased old.ledger := by
  rcases purchases with ⟨_, looked, paid⟩
  rw [Trace.ledger_of_quiet paid, OperationDB.ledger_subBalance, Trace.ledger_of_quiet looked,
    Message.purchased]

/-- The state that the outermost frame starts on: the gas is paid for, the value compared. -/
def Message.startDB (message : Message) (db : OperationDB) : OperationDB :=
  let paid := (db.getBalance message.sender).2.subBalance message.sender message.purchase
  if message.value > 0 then (canTransfer paid message.sender message.value).2 else paid

theorem Message.purchases_startDB (msg : Message) (db : OperationDB) :
    msg.Purchases db (msg.startDB db) := by
  refine ⟨_, Trace.getBalance db msg.sender, ?_⟩
  unfold startDB
  dsimp only
  split
  · exact Trace.canTransfer _ _ _
  · exact Trace.refl _

variable {msg : Message} {state : TransitionState}

theorem buyGas_of_purchasable (purchasable : msg.Purchasable state.db.ledger state.gasPool) :
    buyGas msg state =
      (.ok (), { db := (state.db.getBalance msg.sender).2.subBalance msg.sender msg.purchase
                 gasPool := state.gasPool - msg.gas }) := by
  rcases purchasable with ⟨affordable, fits⟩
  simp only [buyGas, OperationDB.getBalance_fst]
  rw [if_neg (not_lt.mpr affordable), if_neg (not_lt.mpr fits)]

theorem buyGas_of_not_purchasable (refused : ¬ msg.Purchasable state.db.ledger state.gasPool) :
    ∃ error, buyGas msg state =
      (.error error, { state with db := (state.db.getBalance msg.sender).2 }) := by
  simp only [buyGas, OperationDB.getBalance_fst]
  by_cases affordable : msg.balanceCheck ≤ state.db.ledger.balance msg.sender
  · have overfull : state.gasPool < msg.gas := by
      by_contra fits
      exact refused ⟨affordable, not_lt.mp fits⟩
    rw [if_neg (not_lt.mpr affordable), if_pos overfull]
    exact ⟨_, rfl⟩
  · rw [if_pos (not_le.mp affordable)]
    exact ⟨_, rfl⟩

theorem admission_cases (msg : Message) (state : TransitionState) :
    (¬ msg.Purchasable state.db.ledger state.gasPool ∧
        ∃ error new, admission msg state = (.error error, new) ∧
          Quiet state.db new.db ∧ new.gasPool = state.gasPool) ∨
      msg.Purchasable state.db.ledger state.gasPool ∧ ((¬ msg.Executable state.db.ledger ∧
          ∃ error new, admission msg state = (.error error, new) ∧
            msg.Purchases state.db new.db ∧ new.gasPool = state.gasPool - msg.gas) ∨
        msg.Executable state.db.ledger ∧ ∃ gas, intrinsicGas msg.data = .ok gas ∧ gas ≤ msg.gas ∧
          admission msg state =
            (.ok (msg.gas - gas), ⟨msg.startDB state.db, state.gasPool - msg.gas⟩)) := by
  by_cases purchasable : msg.Purchasable state.db.ledger state.gasPool
  case neg =>
    rcases buyGas_of_not_purchasable purchasable with ⟨error, refused⟩
    refine .inl ⟨purchasable, error, { state with db := (state.db.getBalance msg.sender).2 },
      ?_, Trace.getBalance state.db msg.sender, rfl⟩
    simp [admission, refused]
  refine .inr ⟨purchasable, ?_⟩
  have paid : msg.Purchases state.db ((state.db.getBalance msg.sender).2.subBalance
      msg.sender msg.purchase) :=
    ⟨_, Trace.getBalance state.db msg.sender, Trace.refl _⟩
  have started := msg.purchases_startDB state.db
  unfold Message.startDB at *
  unfold admission Message.Executable
  rw [buyGas_of_purchasable purchasable, ← paid.ledger]
  generalize (state.db.getBalance msg.sender).2.subBalance msg.sender msg.purchase = bought at *
  cases intrinsic : intrinsicGas msg.data with
  | error error => exact .inl ⟨by simp, error, _, rfl, paid, rfl⟩
  | ok gas =>
    dsimp only at *
    by_cases tooLow : msg.gas < gas
    · exact .inl ⟨by simp [tooLow], _, _, if_pos tooLow, paid, rfl⟩
    rw [if_neg tooLow]
    by_cases carries : msg.value > 0
    · rw [if_pos carries] at started ⊢
      by_cases covered : msg.value ≤ bought.ledger.balance msg.sender
      · refine .inr ⟨⟨⟨gas, rfl, not_lt.mp tooLow⟩, fun _ => covered⟩, gas, rfl,
          not_lt.mp tooLow, ?_⟩
        simp [canTransfer_fst, covered, carries]
      · exact .inl ⟨fun executable => covered (executable.2 carries), _, _,
          if_neg (by simpa [canTransfer_fst] using covered), started, rfl⟩
    · rw [if_neg carries]
      exact .inr ⟨⟨⟨gas, rfl, not_lt.mp tooLow⟩, fun positive => absurd positive carries⟩, gas,
        rfl, not_lt.mp tooLow, by rw [if_neg carries]⟩

theorem applyMessage_cases {ovm : OVM} {runner : Runner} {msg : Message}
    {old new : TransitionState} {outcome : Except TransitionError ExecutionResult}
    (returned : applyMessage ovm runner msg old = .ok (outcome, new)) :
    (¬ msg.Purchasable old.db.ledger old.gasPool ∧
        (∃ error, outcome = .error error) ∧ Quiet old.db new.db ∧ new.gasPool = old.gasPool) ∨
      (msg.Purchasable old.db.ledger old.gasPool ∧
        ¬ msg.Executable old.db.ledger ∧ (∃ error, outcome = .error error) ∧
          msg.Purchases old.db new.db ∧ new.gasPool = old.gasPool - msg.gas) ∨
      msg.Purchasable old.db.ledger old.gasPool ∧ msg.Executable old.db.ledger ∧
        ∃ gas res world, intrinsicGas msg.data = .ok gas ∧ gas ≤ msg.gas ∧
          execute ovm runner msg (msg.gas - gas) { db := msg.startDB old.db } = .ok (res, world) ∧
          outcome = .ok { usedGas := gasUsed msg.gas res.leftOverGas
                          err := res.err, returnData := res.ret } ∧
          new = { db := world.db, gasPool := old.gasPool - msg.gas } := by
  unfold applyMessage at returned
  rcases admission_cases msg old with ⟨refused, error, mid, admits, quiet, samePool⟩ |
      ⟨purchasable, ⟨stuck, error, mid, admits, purchases, pool⟩ |
        ⟨executable, gas, intrinsic, enough, admits⟩⟩
  · rw [admits] at returned
    cases returned
    exact .inl ⟨refused, ⟨error, rfl⟩, quiet, samePool⟩
  · rw [admits] at returned
    cases returned
    exact .inr (.inl ⟨purchasable, stuck, ⟨error, rfl⟩, purchases, pool⟩)
  · rw [admits] at returned
    dsimp only at returned
    rcases ran : execute ovm runner msg (msg.gas - gas) { db := msg.startDB old.db } with
      fault | ⟨res, world⟩
    · rw [ran] at returned
      cases returned
    · rw [ran] at returned
      cases returned
      exact .inr (.inr ⟨purchasable, executable, gas, res, world, intrinsic, enough, ran, rfl, rfl⟩)

theorem applyMessage_of_stuck (ovm : OVM) (runner : Runner) (msg : Message)
    (old : TransitionState) (purchasable : msg.Purchasable old.db.ledger old.gasPool)
    (stuck : ¬ msg.Executable old.db.ledger) :
    ∃ error new, applyMessage ovm runner msg old = .ok (.error error, new) ∧
      msg.Purchases old.db new.db ∧ new.gasPool = old.gasPool - msg.gas := by
  rcases admission_cases msg old with
    ⟨refused, -⟩ | ⟨-, ⟨-, error, new, admits, purchases, pool⟩ | ⟨executable, -⟩⟩
  · exact absurd purchasable refused
  · refine ⟨error, new, ?_, purchases, pool⟩
    simp [applyMessage, admits]
  · exact absurd executable stuck

end Octopus
