import Octopus.Transition.Gas

/-!
# Runs of messages

Balances stay non-negative along every run in which no frame sends more than its contract
holds.  A message is never applied twice along every run that admits only messages with
the nonce of their sender: no nonce ever goes down, and an applied message raises it.
-/

namespace Octopus

open OperationDB Trace Policy

variable {msg : Message} {ovm : OVM} {outcome : Except TransitionError ExecutionResult}
  {res : CallResult} {gas gasPool : Nat} {ledger : Ledger} {second first : Runner}

structure MessageCall where
  before : TransitionState
  message : Message
  outcome : Except TransitionError ExecutionResult

def MessageCall.Succeeds (call : MessageCall) : Prop :=
  ∃ result, call.outcome = .ok result

theorem MessageCall.succeeds_of_isOk {call : MessageCall} (succeeded : call.outcome.isOk = true) :
    call.Succeeds := by
  rcases outcome : call.outcome with error | res
  · rw [outcome] at succeeded
    cases succeeded
  · exact ⟨res, outcome⟩

section

open Library.Computation

variable [Crypto]

def applyMessages (runner : OVM → Runner) :
    List (OVM × Message) → Go TransitionState (List MessageCall)
  | [] => pure []
  | (ovm, message) :: rest => do
      let before ← get
      let outcome ← applyMessage ovm (runner ovm) message
      let calls ← applyMessages runner rest
      return { before := before, message := message, outcome := outcome } :: calls

variable {runner : OVM → Runner} {old new : TransitionState} {calls : List MessageCall}

theorem applyMessages_cons {rest : List (OVM × Message)}
    (returned : applyMessages runner ((ovm, msg) :: rest) old = .ok (calls, new)) :
    ∃ outcome mid later, applyMessage ovm (runner ovm) msg old = .ok (outcome, mid) ∧
        applyMessages runner rest mid = .ok (later, new) ∧
        calls = { before := old, message := msg, outcome := outcome } :: later := by
  rcases bind_eq_ok.mp returned with ⟨_, _, gotten, returned⟩
  cases gotten
  rcases bind_eq_ok.mp returned with ⟨outcome, mid, applied, returned⟩
  rcases bind_eq_ok.mp returned with ⟨later, _, ran, returned⟩
  rcases pure_eq_ok.mp returned with ⟨rfl, rfl⟩
  exact ⟨outcome, mid, later, applied, ran, rfl⟩

theorem applyMessages_preserves (property : TransitionState → Prop)
    {messages : List (OVM × Message)}
    (kept : ∀ ovm, ∀ call ∈ calls, (ovm, call.message) ∈ messages → ∀ next,
      applyMessage ovm (runner ovm) call.message call.before = .ok (call.outcome, next) →
        property call.before → property next) (holds : property old)
    (returned : applyMessages runner messages old = .ok (calls, new)) :
    (∀ call ∈ calls, property call.before) ∧ property new := by
  induction messages generalizing old calls with
  | nil =>
    rcases pure_eq_ok.mp returned with ⟨rfl, rfl⟩
    exact ⟨by simp, holds⟩
  | cons first _ ih =>
    rcases first with ⟨ovm, msg⟩
    rcases applyMessages_cons returned with ⟨outcome, mid, _, applied, ran, rfl⟩
    have step := kept ovm _ List.mem_cons_self List.mem_cons_self mid applied holds
    have tail := ih (fun ovm call inCalls inMessages =>
      kept ovm call (List.mem_cons_of_mem _ inCalls) (List.mem_cons_of_mem _ inMessages)) step ran
    refine ⟨?_, tail.2⟩
    intro call mem
    rcases List.mem_cons.mp mem with rfl | mem
    · exact holds
    · exact tail.1 call mem

theorem execute_cases {runner : Runner} {old new : World}
    (returned : execute ovm runner msg gas old = .ok (res, new)) :
    (msg.recipient = none ∧ ∃ ready created, Quiet old.db ready.db ∧
        OVM.create ovm runner {} (.account msg.sender) msg.data 0 gas msg.value
            (createAddress msg.sender (old.db.ledger.nonce msg.sender)) ready =
          .ok (created, new)) ∨ ∃ payee ready, msg.recipient = some payee ∧
        (∃ read, Quiet old.db read ∧ ready.db = read.setNonce msg.sender
          ((old.db.ledger.nonce msg.sender + 1) % uint64Size)) ∧
        OVM.call runner {} (.account msg.sender) payee msg.data gas msg.value
          ready = .ok (res, new) := by
  unfold execute at returned
  cases payee : msg.recipient with
  | none =>
    simp only [payee] at returned
    rcases bind_eq_ok.mp returned with ⟨created, _, ran, returned⟩
    rw [← (pure_eq_ok.mp returned).2]
    rw [OVM.createWithNonce, readDB_bind, getNonce_fst] at ran
    exact .inl ⟨rfl, _, created, getNonce old.db msg.sender, ran⟩
  | some addr =>
    simp only [payee] at returned
    rw [readDB_bind, writeDB_bind, getNonce_fst] at returned
    exact .inr ⟨addr, _, rfl, ⟨_, getNonce old.db msg.sender, rfl⟩, returned⟩

theorem execute_agrees (agrees : first.Agrees second) (msg : Message) (gas : Nat) :
    (execute ovm first msg gas).Agrees (.panic "rejected")
      (execute ovm second msg gas) := by
  unfold execute
  cases msg.recipient with
  | none => exact Agrees.bind (OVM.createWithNonce_agrees agrees _ _ _ _ _) fun _ => Agrees.refl _
  | some =>
    refine (Agrees.refl _).bind fun _ => (Agrees.refl _).bind fun _ => ?_
    exact OVM.call_agrees agrees _ _ _ _ _ _

theorem applyMessage_agrees (agrees : first.Agrees second) (msg : Message) :
    (applyMessage ovm first msg).Agrees (.panic "rejected")
      (applyMessage ovm second msg) := by
  intro old
  unfold applyMessage
  rcases admission msg old with ⟨_ | gas, mid⟩
  · exact .inl rfl
  dsimp only
  rcases execute_agrees agrees msg gas { db := mid.db } with same | rejected
  · rw [same]
    exact .inl rfl
  · rw [rejected]
    exact .inr rfl

theorem applyMessages_agrees {first second : OVM → Runner}
    (agrees : ∀ ovm, (first ovm).Agrees (second ovm)) (messages : List (OVM × Message)) :
    (applyMessages first messages).Agrees (.panic "rejected") (applyMessages second messages) := by
  induction messages with
  | nil => exact Agrees.refl _
  | cons head _ ih =>
    rcases head with ⟨ovm, msg⟩
    refine (Agrees.refl _).bind fun _ => ?_
    refine (applyMessage_agrees (agrees ovm) msg).bind fun _ => ?_
    exact ih.bind fun _ => Agrees.refl _

def coveredCalls : Guard
  | level, .call caller _ _ _ value, world =>
    level.depth > Params.callCreateDepth || value.toNat ≤ (world.db.getBalance caller).1
  | _, _, _ => true

theorem coveredCalls_enforces : Guard.Enforces coveredCalls covered where
  setState _ _ _ _ _ _ := trivial
  selfdestruct _ _ _ _ _ := trivial
  call level caller addr input gas value world accepted shallow := by
    simp only [coveredCalls, getBalance_fst, Bool.or_eq_true, decide_eq_true_eq] at accepted
    rcases accepted with deep | covered
    · exact absurd shallow (not_le.mpr deep)
    · exact ⟨Int.natCast_nonneg _, covered⟩
  create _ _ _ _ _ _ _ _ := covered_admitsCreation (Int.natCast_nonneg _)
  create2 _ _ _ _ _ _ _ _ _ := covered_admitsCreation (Int.natCast_nonneg _)

/-- The message moves no negative value, and pays for its gas no more than
`buyGas` asks for. -/
def Message.Funded (message : Message) : Prop :=
  0 ≤ message.value ∧ message.purchase ≤ message.balanceCheck

theorem Message.Funded.purchased_nonNegative (funded : msg.Funded)
    (purchasable : msg.Purchasable ledger gasPool) (nonNegative : ledger.NonNegative) :
    (msg.purchased ledger).NonNegative := by
  apply nonNegative.addBalance
  have asked := purchasable.1
  have atLeast := ledger.balance_le_entry msg.sender
  have pays := funded.2
  omega

section

variable {runner : Runner} (runs : runner.Traced Policy.covered)
include runs

theorem execute_nonNegative {old new : World} (positive : 0 ≤ msg.value)
    (pays : 0 < msg.value → msg.value ≤ old.db.ledger.balance msg.sender)
    (nonNegative : old.db.ledger.NonNegative)
    (returned : execute ovm runner msg gas old = .ok (res, new)) : new.db.ledger.NonNegative := by
  rcases execute_cases returned with
    ⟨-, ready, created, quiet, ran⟩ | ⟨payee, ready, -, ⟨read, quiet, bumped⟩, ran⟩
  · have sameLedger := ledger_of_quiet quiet
    have trace := OVM.create_traced ran runs fun _ => covered_admitsCreation positive
    refine trace.steps.nonNegative ?_
    rw [sameLedger]
    exact nonNegative
  have bumpedLedger : ready.db.ledger = old.db.ledger.setNonce msg.sender
      ((old.db.ledger.nonce msg.sender + 1) % uint64Size) := by
    rw [bumped, ledger_setNonce, ledger_of_quiet quiet]
  have readyNonNegative : ready.db.ledger.NonNegative := by
    rw [bumpedLedger]
    exact nonNegative.modify msg.sender _ (nonNegative.entry msg.sender)
  have trace := OVM.call_traced runs ?_ ran
  · exact trace.steps.nonNegative readyNonNegative
  intro _
  refine ⟨positive, ?_⟩
  rcases positive.lt_or_eq with carries | empty
  · rw [bumpedLedger]
    exact (pays carries).trans (Ledger.balance_le_modify _ _ _ rfl _)
  · rw [← empty]
    exact readyNonNegative msg.sender

theorem applyMessage_nonNegative (funded : msg.Funded)
    (nonNegative : old.db.ledger.NonNegative)
    (returned : applyMessage ovm runner msg old = .ok (outcome, new)) :
    new.db.ledger.NonNegative := by
  rcases applyMessage_cases returned with ⟨-, -, quiet, -⟩ | ⟨purchasable, -, -, purchases, -⟩ |
      ⟨purchasable, executable, gas, frame, world, -, -, ran, -, rfl⟩
  · rw [ledger_of_quiet quiet]
    exact nonNegative
  · rw [purchases.ledger]
    exact funded.purchased_nonNegative purchasable nonNegative
  · have start := (msg.purchases_startDB old.db).ledger
    refine execute_nonNegative runs funded.1 ?_ ?_ ran
    · intro carries
      rw [start]
      exact executable.2 carries
    · rw [start]
      exact funded.purchased_nonNegative purchasable nonNegative

end

/-- Along every run of funded messages in which no frame calls with more value than its contract
holds, no balance is ever negative. -/
theorem applyMessages_nonNegative (fuel : Nat) (messages : List (OVM × Message))
    (before after : TransitionState) (calls : List MessageCall)
    (nonNegative : ∀ address, 0 ≤ (before.db.getBalance address).1)
    (funded : ∀ ovm message, (ovm, message) ∈ messages → message.Funded)
    (covered : applyMessages (fun ovm => ovm.guardedRun coveredCalls fuel) messages before =
      .ok (calls, after)) :
    applyMessages (fun ovm => ovm.run fuel) messages before = .ok (calls, after) ∧
      (∀ call ∈ calls, ∀ address, 0 ≤ (call.before.db.getBalance address).1) ∧
      ∀ address, 0 ≤ (after.db.getBalance address).1 := by
  refine ⟨(applyMessages_agrees (fun _ => OVM.guardedRun_agrees _ fuel) _).refines covered, ?_⟩
  simp only [OperationDB.getBalance_fst] at nonNegative ⊢
  refine applyMessages_preserves (fun state => state.db.ledger.NonNegative) ?_ nonNegative covered
  intro ovm call _ mem _ applied holds
  exact applyMessage_nonNegative (OVM.guardedRun_traced coveredCalls_enforces fuel)
    (funded ovm call.message mem) holds applied

/-- The gas price is within the fee cap, as it is for every message that comes
from a transaction. -/
def Message.FeeCapped (message : Message) : Prop :=
  ∀ gasFeeCap, message.gasFeeCap = some gasFeeCap → message.gasPrice ≤ gasFeeCap

/-- The message is refused, or it carries the nonce of its sender and there is a next one. -/
def Message.InOrder (message : Message) (state : TransitionState) : Prop :=
  message.Purchasable state.db.ledger state.gasPool → message.Executable state.db.ledger →
    (state.db.getNonce message.sender).1 = message.nonce ∧ message.nonce + 1 < uint64Size ∧
      message.FeeCapped

theorem Message.value_le_purchased (purchasable : msg.Purchasable ledger gasPool)
    (executable : msg.Executable ledger) (capped : msg.FeeCapped) :
    msg.value ≤ (msg.purchased ledger).balance msg.sender := by
  by_cases carries : 0 < msg.value
  · exact executable.2 carries
  have asked := purchasable.1
  have atLeast := ledger.balance_le_entry msg.sender
  rw [purchased, Ledger.balance_addBalance, if_pos rfl]
  rcases cap : msg.gasFeeCap with _ | gasFeeCap
  · rw [balanceCheck, cap] at asked
    dsimp only at asked
    omega
  rw [balanceCheck, cap] at asked
  have priced : msg.purchase ≤ msg.gas * gasFeeCap :=
    Int.mul_le_mul_of_nonneg_left (capped gasFeeCap cap) (Int.natCast_nonneg _)
  dsimp only at asked
  omega

theorem Ledger.nonce_purchased (msg : Message) (ledger : Ledger) (addr : Address) :
    (msg.purchased ledger).nonce addr = ledger.nonce addr :=
  ledger.nonce_addBalance msg.sender addr _

theorem execute_raises_nonce {runner : Runner} {old new : World}
    (returned : execute ovm runner msg gas old = .ok (res, new))
    (runs : runner.Traced fresh)
    (room : old.db.ledger.nonce msg.sender + 1 < uint64Size)
    (pays : msg.value ≤ old.db.ledger.balance msg.sender) (addr : Address) :
    old.db.ledger.nonce addr + (if addr = msg.sender then 1 else 0) ≤
      new.db.ledger.nonce addr := by
  have raised : ∃ bumped : Ledger, bumped = old.db.ledger.setNonce msg.sender
      (old.db.ledger.nonce msg.sender + 1) ∧ fresh.Steps bumped new.db.ledger := by
    rcases execute_cases returned with
      ⟨-, ready, created, quiet, ran⟩ | ⟨payee, ready, -, ⟨read, quiet, bumped⟩, ran⟩
    · have notRefused : ¬ OVM.CreationRefused {} ready.db.ledger msg.sender msg.value := by
        rw [ledger_of_quiet quiet]
        rintro (deep | poor | full)
        · exact absurd deep (by decide)
        · exact absurd pays (not_le.mpr poor)
        · exact absurd room (not_lt.mpr full)
      rcases OVM.create_bumps ran runs (fresh_admitsCreation _) notRefused with
        ⟨read, bumped, quietly, rfl, trace⟩
      refine ⟨_, ?_, trace.steps⟩
      rw [Effect.ledger_perform, ledger_of_quiet quietly, ledger_of_quiet quiet, Effect.apply]
      rfl
    · refine ⟨ready.db.ledger, ?_, (OVM.call_traced runs (fun _ => trivial) ran).steps⟩
      rw [bumped, ledger_setNonce, ledger_of_quiet quiet, Nat.mod_eq_of_lt room]
  rcases raised with ⟨bumped, rfl, steps⟩
  refine le_trans ?_ (steps.nonce_le addr)
  rw [Ledger.nonce_setNonce]
  split
  · next same => rw [same]
  · exact le_rfl

theorem applyMessage_raises_nonce {runner : Runner} (runs : runner.Traced fresh)
    (inOrder : msg.InOrder old)
    (returned : applyMessage ovm runner msg old = .ok (outcome, new)) :
    (∀ addr, old.db.ledger.nonce addr ≤ new.db.ledger.nonce addr) ∧ ((∃ res, outcome = .ok res) →
        old.db.ledger.nonce msg.sender = msg.nonce ∧
          msg.nonce < new.db.ledger.nonce msg.sender) := by
  rcases applyMessage_cases returned with
    ⟨-, ⟨error, rfl⟩, quiet, -⟩ | ⟨-, -, ⟨error, rfl⟩, purchases, -⟩ |
      ⟨purchasable, executable, gas, frame, world, -, -, ran, -, rfl⟩
  · rw [ledger_of_quiet quiet]
    refine ⟨fun _ => le_rfl, ?_⟩
    rintro ⟨res, impossible⟩
    cases impossible
  · rw [purchases.ledger]
    refine ⟨fun addr => (Ledger.nonce_purchased msg _ addr).ge, ?_⟩
    rintro ⟨res, impossible⟩
    cases impossible
  · rcases inOrder purchasable executable with ⟨same, room, capped⟩
    rw [getNonce_fst] at same
    have purchases := msg.purchases_startDB old.db
    generalize msg.startDB old.db = start at ran purchases
    have startNonce : ∀ addr, start.ledger.nonce addr = old.db.ledger.nonce addr := by
      intro addr
      rw [purchases.ledger, Ledger.nonce_purchased]
    have startRoom : start.ledger.nonce msg.sender + 1 < uint64Size := by
      rw [startNonce, same]
      exact room
    have startPays : msg.value ≤ start.ledger.balance msg.sender := by
      rw [purchases.ledger]
      exact Message.value_le_purchased purchasable executable capped
    have raises := execute_raises_nonce ran runs startRoom startPays
    simp only [startNonce] at raises
    refine ⟨fun addr => le_trans (Nat.le_add_right _ _) (raises addr), fun _ => ⟨same, ?_⟩⟩
    have bumped := raises msg.sender
    rw [if_pos rfl, same] at bumped
    exact bumped

/-- Along every run whose messages come in order, a message is applied only with the nonce of
its sender, and no two share sender and nonce. -/
theorem applyMessages_nonce_once (fuel : Nat) (messages : List (OVM × Message))
    (before after : TransitionState) (calls : List MessageCall)
    (returned : applyMessages (fun ovm => ovm.run fuel) messages before = .ok (calls, after))
    (inOrder : ∀ call ∈ calls, call.message.InOrder call.before) :
    (∀ call ∈ calls, call.Succeeds →
        (call.before.db.getNonce call.message.sender).1 = call.message.nonce) ∧
      calls.Pairwise fun first second => first.Succeeds → second.Succeeds →
        ¬ (first.message.sender = second.message.sender ∧
          first.message.nonce = second.message.nonce) := by
  simp only [OperationDB.getNonce_fst]
  induction messages generalizing before calls with
  | nil =>
    rcases pure_eq_ok.mp returned with ⟨rfl, rfl⟩
    simp
  | cons head _ ih =>
    rcases head with ⟨ovm, message⟩
    rcases applyMessages_cons returned with ⟨_, mid, later, applied, ran, rfl⟩
    have laterInOrder : ∀ call ∈ later, call.message.InOrder call.before :=
      fun call mem => inOrder call (List.mem_cons_of_mem _ mem)
    rcases ih mid later ran laterInOrder with ⟨carries, apart⟩
    have first := applyMessage_raises_nonce (ovm.run_traced fuel)
      (inOrder _ List.mem_cons_self) applied
    refine ⟨?_, List.pairwise_cons.mpr ⟨?_, apart⟩⟩
    · intro call mem succeeds
      rcases List.mem_cons.mp mem with rfl | mem
      · exact (first.2 succeeds).1
      · exact carries call mem succeeds
    · intro call mem firstSucceeds succeeds shared
      have passed := applyMessages_preserves
        (fun state => message.nonce < state.db.ledger.nonce message.sender)
        (fun ovm call inLater _ next applied above => above.trans_le
          ((applyMessage_raises_nonce (ovm.run_traced fuel) (laterInOrder call inLater)
            applied).1 message.sender))
        (first.2 firstSucceeds).2 ran
      have above := passed.1 call mem
      have same := carries call mem succeeds
      rw [← shared.1, ← shared.2] at same
      exact absurd same above.ne'

end

open Library.Computation

attribute [local instance] sampleCrypto

def callingCode (value : Byte) : Bytes :=
  [0x60, 0, 0x60, 0, 0x60, 0, 0x60, 0, 0x60, value, 0x60, 0x22, 0x60, 0, 0xf1, 0]

def callingDB (value : Byte) (codeHash : Hash) : OperationDB :=
  contractDB (callingCode value) codeHash

def contractCall : Message where
  sender := 0x11
  recipient := some 0xc0
  nonce := 0
  value := 0
  gas := 100000
  gasPrice := 1
  gasFeeCap := some 1

theorem callingDB_nonNegative (value : Byte) (codeHash : Hash) (addr : Address) :
    0 ≤ ((callingDB value codeHash).getBalance addr).1 := by
  rw [getBalance_fst]
  simp only [Ledger.balance, OperationDB.ledger, OperationDB.find, callingDB, contractDB,
    twoAccountsDB]
  split_ifs <;> simp [OperationObject.account, OperationObject.ofAccount, StateAccount.holding]

theorem covered_call_nonNegative :
    ∃ calls after,
      applyMessages (fun ovm => ovm.run 20) [(sampleOVM, contractCall)]
          ⟨callingDB 3 0x4219acdf5a5b5f80191880801450bf91d546ce2374b25a1fb68f3c51bc577163, 200000⟩ =
        .ok (calls, after) ∧ ∀ address, 0 ≤ (after.db.getBalance address).1 := by
  have ran : returns (fun _ _ => true)
      (applyMessages (fun ovm => ovm.guardedRun coveredCalls 20) [(sampleOVM, contractCall)]
        ⟨callingDB 3 0x4219acdf5a5b5f80191880801450bf91d546ce2374b25a1fb68f3c51bc577163,
          200000⟩) = true := by
    decide +kernel
  rcases exists_of_returns ran with ⟨calls, after, covered, -⟩
  have funded : ∀ ovm msg, (ovm, msg) ∈ [(sampleOVM, contractCall)] → msg.Funded := by
    intro ovm msg mem
    cases List.mem_singleton.mp mem
    exact ⟨by decide, by decide⟩
  have safe := applyMessages_nonNegative 20 _ _ after calls
    (callingDB_nonNegative 3 _) funded covered
  exact ⟨calls, after, safe.1, safe.2.2⟩

/-- The contract calls with fifty although it holds ten, and ends up forty in
debt. -/
theorem uncovered_call_overdraws :
    (∀ address, 0 ≤ ((callingDB 50
        0x17401a9e7480833b8b54849720c8ee4a6abac8148a925726ef5de6a2c31d9352).getBalance address).1) ∧
      ∃ calls after,
        applyMessages (fun ovm => ovm.run 20) [(sampleOVM, contractCall)]
            ⟨callingDB 50 0x17401a9e7480833b8b54849720c8ee4a6abac8148a925726ef5de6a2c31d9352,
              200000⟩ = .ok (calls, after) ∧ ¬ ∀ address, 0 ≤ (after.db.getBalance address).1 := by
  refine ⟨callingDB_nonNegative 50 _, ?_⟩
  have overdrawn : returns (fun _ after => decide ((after.db.getBalance 0xc0).1 = -40))
      (applyMessages (fun ovm => ovm.run 20) [(sampleOVM, contractCall)]
        ⟨callingDB 50 0x17401a9e7480833b8b54849720c8ee4a6abac8148a925726ef5de6a2c31d9352,
          200000⟩) = true := by
    decide +kernel
  rcases exists_of_returns overdrawn with ⟨calls, after, ran, debt⟩
  refine ⟨calls, after, ran, fun nonNegative => ?_⟩
  have contradiction := nonNegative 0xc0
  rw [of_decide_eq_true debt] at contradiction
  exact absurd contradiction (by decide)

theorem payments_nonce_once :
    ∃ calls after,
      applyMessages (fun ovm => ovm.run 4)
          [(sampleOVM, payment 21000 0), (sampleOVM, payment 21000 1)]
          ⟨twoAccountsDB, 50000⟩ = .ok (calls, after) ∧ ∀ call ∈ calls, call.Succeeds →
        (call.before.db.getNonce call.message.sender).1 = call.message.nonce := by
  have checked : returns (fun calls _ => calls.all fun call =>
        decide ((call.before.db.getNonce call.message.sender).1 = call.message.nonce) &&
          decide (call.message.nonce + 1 < uint64Size) &&
          decide (call.message.gasFeeCap = some call.message.gasPrice))
      (applyMessages (fun ovm => ovm.run 4)
        [(sampleOVM, payment 21000 0), (sampleOVM, payment 21000 1)]
        ⟨twoAccountsDB, 50000⟩) = true := by
    decide +kernel
  rcases exists_of_returns checked with ⟨calls, after, ran, checks⟩
  have inOrder : ∀ call ∈ calls, call.message.InOrder call.before := by
    intro call mem _ _
    have check := List.all_eq_true.mp checks call mem
    simp only [Bool.and_eq_true, decide_eq_true_eq] at check
    refine ⟨check.1.1, check.1.2, ?_⟩
    intro gasFeeCap cap
    rw [check.2] at cap
    cases cap
    exact le_rfl
  exact ⟨calls, after, ran, (applyMessages_nonce_once 4 _ _ after calls ran inOrder).1⟩

/-- The same payment is applied twice, the second time with a nonce below the
one of its sender. -/
theorem payment_applied_twice : (payment 21000 0).isFake = false ∧
      ∃ first second after,
        applyMessages (fun ovm => ovm.run 4)
            [(sampleOVM, payment 21000 0), (sampleOVM, payment 21000 0)] ⟨twoAccountsDB, 50000⟩ =
          .ok ([first, second], after) ∧
        first.message = second.message ∧ first.Succeeds ∧ second.Succeeds ∧
        (second.before.db.getNonce second.message.sender).1 ≠ second.message.nonce := by
  refine ⟨rfl, ?_⟩
  have replayed : returns (fun calls _ => calls.length == 2 && calls[0]?.any fun first =>
        calls[1]?.any fun second =>
          decide (first.message = second.message) && first.outcome.isOk && second.outcome.isOk &&
            decide ((second.before.db.getNonce second.message.sender).1 ≠ second.message.nonce))
      (applyMessages (fun ovm => ovm.run 4)
        [(sampleOVM, payment 21000 0), (sampleOVM, payment 21000 0)] ⟨twoAccountsDB, 50000⟩) =
          true := by
    decide +kernel
  rcases exists_of_returns replayed with ⟨calls, after, ran, checks⟩
  rcases calls with _ | ⟨first, _ | ⟨second, _ | ⟨_, _⟩⟩⟩
  · cases checks
  · cases checks
  · change (decide (first.message = second.message) && first.outcome.isOk &&
      second.outcome.isOk && decide _) = true at checks
    simp only [Bool.and_eq_true, decide_eq_true_eq] at checks
    rcases checks with ⟨⟨⟨same, firstOk⟩, secondOk⟩, differs⟩
    refine ⟨first, second, after, ran, same, ?_, ?_, differs⟩
    · exact MessageCall.succeeds_of_isOk firstOk
    · exact MessageCall.succeeds_of_isOk secondOk
  · simp at checks

end Octopus
