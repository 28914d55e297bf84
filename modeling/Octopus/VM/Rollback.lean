import Octopus.VM.Trace

/-!
# Failed frames

No frame undoes its effects when it fails, so a failed frame leaves the ledger as it was
only if there was nothing to undo.  The guard `harmless` lets a frame go on only with
requests whose effects do not change the ledger.
-/

namespace Octopus

open OperationDB Ledger

variable {address addr : Address} {new : World} {res : CreateResult} {codeHash : Hash}
  {input code : Bytes}

theorem Ledger.suicide_eq_self {ledger : Ledger} (poor : ledger.balance address = 0) :
    ledger.suicide address = ledger := by
  rw [suicide, Function.update_eq_self_iff]
  rcases found : ledger address with _ | account
  · rfl
  · have empty : account.balance = 0 := by simpa [balance, found] using poor
    rw [Option.map_some, ← empty]

section

variable [Crypto]

def Policy.idle : Policy :=
  fun effect ledger => effect.apply ledger = ledger

theorem Policy.Steps.eq_of_idle {old new : Ledger}
    (steps : Policy.idle.Steps old new) : new = old := by
  refine Policy.Steps.preserves (fun ledger => ledger = old) steps ?_ rfl
  intro _ ledger idle same
  exact idle.trans same

theorem Trace.ledger_of_idle {old new : OperationDB} (trace : Trace Policy.idle old new) :
    new.ledger = old.ledger :=
  trace.steps.eq_of_idle

namespace Ledger

variable {ledger : Ledger} {address : Address}

theorem setState_eq_self {key value : Hash} (here : ledger.Exists address)
    (same : ledger.storage address key = value) : ledger.setState address key value = ledger := by
  apply modify_eq_self _ _ here
  rcases Option.isSome_iff_exists.mp here with ⟨account, found⟩
  have stored : account.storage key = value := by simpa [storage, found] using same
  rw [ledger.entry_of_some address found, Function.update_eq_self_iff.mpr stored.symm]

theorem transfer_eq_self {sender recipient : Address} {amount : Int}
    (senderExists : ledger.Exists sender) (recipientExists : ledger.Exists recipient)
    (idle : amount = 0 ∨ sender = recipient) :
    ledger.transfer sender recipient amount = ledger := by
  rcases idle with rfl | rfl
  · rw [transfer, neg_zero, addBalance_zero _ _ senderExists, addBalance_zero _ _ recipientExists]
  rcases Option.isSome_iff_exists.mp senderExists with ⟨_, found⟩
  funext other
  by_cases same : other = sender
  · subst same
    simp [transfer, addBalance, modify, found]
  · simp [transfer, addBalance, modify, same]

theorem idle_of_transfer_eq_self {sender recipient : Address} {amount : Int}
    (same : ledger.transfer sender recipient amount = ledger) :
    ledger.Exists sender ∧ ledger.Exists recipient ∧ (amount = 0 ∨ sender = recipient) := by
  have senderExists : ledger.Exists sender := by
    rw [← same, transfer, addBalance, exists_modify, addBalance, exists_modify]
    exact .inr (.inl rfl)
  have recipientExists : ledger.Exists recipient := by
    rw [← same, transfer, addBalance, exists_modify]
    exact .inl rfl
  refine ⟨senderExists, recipientExists, or_iff_not_imp_right.mpr fun apart => ?_⟩
  have moved := congrArg (fun ledger => Ledger.balance ledger sender) same
  have held := (ledger.exists_iff_balance_entry sender).mp senderExists
  simp only [transfer, balance_addBalance, if_neg apart, if_pos, held] at moved
  omega

end Ledger

/-- Writing the value that is already there, destroying an account with nothing to hand over,
calling with nothing to move, and creations that are refused. -/
def harmless : Guard
  | _, .setState address key value, world =>
    (world.db.exist address).1 && (world.db.getState address key).1 == value
  | _, .selfdestruct address beneficiary, world =>
    (world.db.exist beneficiary).1 && (world.db.getBalance address).1 == 0
  | level, .call caller address _ _ value, world =>
    level.depth > Params.callCreateDepth ||
      ((world.db.exist caller).1 && (world.db.exist address).1 &&
        (value == 0 || caller == address))
  | level, .create caller _ _ value, world => refusedCreation level caller value world
  | level, .create2 caller _ _ value _, world => refusedCreation level caller value world
  | _, _, _ => true
where
  refusedCreation (level : Level) (caller : Address) (value : Word) (world : World) : Bool :=
    level.depth > Params.callCreateDepth || (world.db.getBalance caller).1 < value.toNat ||
      uint64Size ≤ (world.db.getNonce caller).1 + 1

theorem harmless_refusedCreation {level : Level} {caller : Address} {value : Word} {world : World}
    (accepted : harmless.refusedCreation level caller value world = true) :
    OVM.CreationRefused level world.db.ledger caller value.toNat := by
  simp only [harmless.refusedCreation, getBalance_fst, getNonce_fst,
    Bool.or_eq_true, decide_eq_true_eq] at accepted
  rcases accepted with (deep | poor) | full
  · exact .inl deep
  · exact .inr (.inl poor)
  · exact .inr (.inr full)

theorem harmless_enforces : Guard.Enforces harmless Policy.idle where
  setState level address key value world accepted := by
    simp only [harmless, exist_fst, getState_fst, Bool.and_eq_true, beq_iff_eq] at accepted
    exact setState_eq_self accepted.1 accepted.2
  selfdestruct level address beneficiary world accepted := by
    simp only [harmless, exist_fst, getBalance_fst, Bool.and_eq_true, beq_iff_eq] at accepted
    rw [Policy.idle, Effect.apply, accepted.2, addBalance_zero _ _ accepted.1]
    exact suicide_eq_self accepted.2
  call level caller address input gas value world accepted shallow := by
    simp only [harmless, exist_fst, Bool.or_eq_true, Bool.and_eq_true, beq_iff_eq,
      decide_eq_true_eq] at accepted
    rcases accepted with deep | ⟨⟨callerExists, addressExists⟩, idle⟩
    · exact absurd shallow (not_le.mpr deep)
    · refine transfer_eq_self callerExists addressExists ?_
      exact idle.imp (fun empty => by rw [empty]; rfl) id
  create level caller code gas value world accepted notRefused :=
    absurd (harmless_refusedCreation accepted) notRefused
  create2 level caller code gas value salt world accepted notRefused :=
    absurd (harmless_refusedCreation accepted) notRefused

namespace OVM

open Library.Computation

def CallAtomic (ovm : OVM) (fuel : Nat) (level : Level) (caller : ContractRef) (addr : Address)
    (input : Bytes) (gas : Nat) (value : Int) (before : World) : Prop :=
  ∀ result after, call (ovm.run fuel) level caller addr input gas value before =
      .ok (result, after) →
    result.err ≠ none → after.db.ledger = before.db.ledger

/-- A call that is refused, returns no error, or moves nothing and runs harmless code. -/
def CallHarmless (ovm : OVM) (fuel : Nat) (level : Level) (caller : ContractRef) (addr : Address)
    (input : Bytes) (gas : Nat) (value : Int) (before : World) : Prop :=
  level.depth > Params.callCreateDepth ∨
    (∀ result after, call (ovm.run fuel) level caller addr input gas value before =
      .ok (result, after) → result.err = none) ∨
    (before.db.ledger.Exists caller.address ∧ before.db.ledger.Exists addr ∧
      (value = 0 ∨ caller.address = addr)) ∧
      ∃ result after, call (ovm.guardedRun harmless fuel) level caller addr input gas value
        before = .ok (result, after)

variable {ovm : OVM} {fuel : Nat} {level : Level} {caller : ContractRef} {gas : Nat} {value : Int}
  {old : World}

theorem callAtomic_of_harmless
    (isHarmless : CallHarmless ovm fuel level caller addr input gas value old) :
    CallAtomic ovm fuel level caller addr input gas value old := by
  intro _ _ returned failed
  rcases isHarmless with deep | succeeds | ⟨⟨callerExists, addrExists, idle⟩, _, _, ran⟩
  · rw [call_of_deep deep] at returned
    cases returned
    rfl
  · exact absurd (succeeds _ _ returned) failed
  have same := (call_agrees (guardedRun_agrees harmless fuel) level caller addr input gas
    value).refines ran
  rw [returned] at same
  cases same
  have trace := call_traced (guardedRun_traced harmless_enforces fuel)
    (fun _ => transfer_eq_self callerExists addrExists idle) ran
  exact trace.ledger_of_idle

theorem ledger_of_harmless_requests {res : CallResult}
    (shallow : ¬ level.depth > Params.callCreateDepth)
    (ran : call (ovm.guardedRun harmless fuel) level caller addr input gas value old =
      .ok (res, new)) :
    call (ovm.run fuel) level caller addr input gas value old = .ok (res, new) ∧
      new.db.ledger = old.db.ledger.transfer caller.address addr value := by
  refine ⟨(call_agrees (guardedRun_agrees harmless fuel) level caller addr input gas
    value).refines ran, ?_⟩
  rcases call_moves (guardedRun_traced harmless_enforces fuel) shallow ran with
    ⟨checked, moved, quiet, rfl, trace⟩
  rw [Trace.ledger_of_idle trace, Effect.ledger_perform, Trace.ledger_of_quiet quiet,
    Effect.apply]

/-- A failed call of harmless code is not atomic if moving its value changes the ledger. -/
theorem not_callAtomic_of_moved {res : CallResult}
    (shallow : ¬ level.depth > Params.callCreateDepth)
    (moves : old.db.ledger.transfer caller.address addr value ≠ old.db.ledger)
    (ran : call (ovm.guardedRun harmless fuel) level caller addr input gas value old =
      .ok (res, new)) (failed : res.err ≠ none) :
    ¬ CallAtomic ovm fuel level caller addr input gas value old := by
  intro atomic
  rcases ledger_of_harmless_requests shallow ran with ⟨returned, moved⟩
  exact moves (moved.symm.trans (atomic res new returned failed))

theorem callHarmless_of_atomic {res : CallResult}
    (ran : call (ovm.guardedRun harmless fuel) level caller addr input gas value old =
      .ok (res, new)) (atomic : CallAtomic ovm fuel level caller addr input gas value old) :
    CallHarmless ovm fuel level caller addr input gas value old := by
  by_cases deep : level.depth > Params.callCreateDepth
  · exact .inl deep
  rcases ledger_of_harmless_requests deep ran with ⟨returned, moved⟩
  by_cases succeeds : res.err = none
  · refine .inr (.inl fun other after also => ?_)
    cases returned.symm.trans also
    exact succeeds
  · have kept := atomic res new returned succeeds
    exact .inr (.inr ⟨idle_of_transfer_eq_self (moved.symm.trans kept), res, new, ran⟩)

/-- A failed creation leaves the ledger as it was, but for the nonce of the
creator. -/
def CreateAtomic (ovm : OVM) (fuel : Nat) (level : Level) (caller : ContractRef) (code : Bytes)
    (codeHash : Hash) (gas : Nat) (value : Int) (address : Address) (before : World) : Prop :=
  ∀ result after, create ovm (ovm.run fuel) level caller code codeHash gas value address before =
      .ok (result, after) →
    result.err ≠ none →
      after.db.ledger = before.db.ledger ∨
        after.db.ledger = (Effect.bumpNonce caller.address).apply before.db.ledger

def BlankAt (ledger : Ledger) (address : Address) : Prop :=
  ∃ account, ledger address = some account ∧
    account = { Account.blank with balance := account.balance }

/-- A creation that is refused, finds its address taken, returns no error, or opens a blank
account of the same address without a first nonce, moves nothing and runs harmless code. -/
def CreateHarmless (ovm : OVM) (fuel : Nat) (level : Level) (caller : ContractRef) (code : Bytes)
    (codeHash : Hash) (gas : Nat) (value : Int) (address : Address) (before : World) : Prop :=
  let bumped := (Effect.bumpNonce caller.address).apply before.db.ledger
  CreationRefused level before.db.ledger caller.address value ∨ AddressTaken bumped address ∨
    (∀ result after, create ovm (ovm.run fuel) level caller code codeHash gas value address
      before = .ok (result, after) → result.err = none) ∨
    (ovm.rules.isEIP158 = false ∧ BlankAt bumped address ∧
      (value = 0 ∨ caller.address = address)) ∧
      ∃ result after, create ovm (ovm.guardedRun harmless fuel) level caller code codeHash gas value
        address before = .ok (result, after)

theorem storeCode_of_failed {ret : Bytes} {err : Option VMError}
    (ran : storeCode ovm address ret err gas old = .ok (res, new))
    (failed : res.err ≠ none) : new = old := by
  unfold storeCode at ran
  split_ifs at ran with failedBefore
  iterate 4
    · exact (pure_eq_ok.mp ran).2.symm
  · rw [← (pure_eq_ok.mp ran).1] at failed
    exact absurd failed failedBefore

theorem deploy_idle {runner : Runner} (runs : runner.Traced Policy.idle)
    (noFirstNonce : ovm.rules.isEIP158 = false) (blank : BlankAt old.db.ledger address)
    (callerExists : old.db.ledger.Exists caller.address)
    (idle : value = 0 ∨ caller.address = address)
    (returned : deploy ovm runner level caller code codeHash gas value address old =
      .ok (res, new)) (failed : res.err ≠ none) : new.db.ledger = old.db.ledger := by
  rcases blank with ⟨_, found, isBlank⟩
  have here : old.db.ledger.Exists address := by
    rw [Ledger.Exists, found]
    rfl
  have opened : (old.db.createAccount address).ledger = old.db.ledger := by
    rw [ledger_createAccount]
    apply modify_eq_self _ _ here
    rw [entry_of_some _ _ found]
    exact isBlank.symm
  have endowed : (transfer (old.db.createAccount address) caller.address address value).ledger =
      old.db.ledger := by
    rw [ledger_transfer, opened]
    exact transfer_eq_self callerExists here idle
  unfold deploy at returned
  rw [writeDB_bind, writeDB_bind, writeDB_bind, enterFrame_bind] at returned
  rcases bind_eq_ok.mp returned with ⟨⟨⟨_, err⟩, _⟩, _, ran, stored⟩
  have ranIdle := Trace.ledger_of_idle (runs _ _ _ _ ran)
  rw [World.db_enter, if_neg (by simp [noFirstNonce])] at ranIdle
  rw [storeCode_of_failed stored failed, ranIdle, endowed]

theorem createAtomic_of_harmless
    (isHarmless : CreateHarmless ovm fuel level caller code codeHash gas value address old) :
    CreateAtomic ovm fuel level caller code codeHash gas value address old := by
  intro _ _ returned failed
  have preparedLedger : ∀ {ready prepared : World}, Quiet old.db ready.db →
      Quiet ((Effect.bumpNonce caller.address).perform ready.db) prepared.db →
        prepared.db.ledger = (Effect.bumpNonce caller.address).apply old.db.ledger := by
    intro ready prepared toReady quiet
    rw [Trace.ledger_of_quiet quiet, Effect.ledger_perform, Trace.ledger_of_quiet toReady]
  rcases create_cases returned with ⟨-, quiet⟩ | ⟨notRefused, ready, prepared, toReady, quiet, ends⟩
  · exact .inl (Trace.ledger_of_quiet quiet)
  have bumped := preparedLedger toReady quiet
  rcases ends with ⟨-, rfl⟩ | ⟨free, -⟩
  · exact .inr bumped
  rw [bumped] at free
  rcases isHarmless with refused | taken | succeeds | ⟨⟨noFirstNonce, blank, idle⟩, _, _, ran⟩
  · exact absurd refused notRefused
  · exact absurd taken free
  · exact absurd (succeeds _ _ returned) failed
  have same := (create_agrees (guardedRun_agrees harmless fuel) level caller code codeHash gas
    value address).refines ran
  rw [returned] at same
  cases same
  rcases create_cases ran with ⟨refused, -⟩ | ⟨-, _, _, toReady', quiet', ends'⟩
  · exact absurd refused notRefused
  have bumped' := preparedLedger toReady' quiet'
  rcases ends' with ⟨taken, -⟩ | ⟨-, deployed⟩
  · rw [bumped'] at taken
    exact absurd taken free
  refine .inr ?_
  rw [← bumped'] at blank ⊢
  refine deploy_idle (guardedRun_traced harmless_enforces fuel) noFirstNonce blank ?_ idle
    deployed failed
  rw [bumped', Effect.apply]
  exact (exists_modify _ _ _ _).mpr (.inl rfl)

/-- A failed call or creation leaves the ledger as it was, but for the nonce of the creator, if
there was nothing to undo.  For a call of harmless code the condition is exact. -/
theorem failed_frame_atomic_of_harmless (ovm : OVM) (fuel : Nat) (level : Level)
    (caller : ContractRef) (gas : Nat) (value : Int) (before : World) :
    (∀ addr input, CallHarmless ovm fuel level caller addr input gas value before →
        CallAtomic ovm fuel level caller addr input gas value before) ∧
      (∀ addr input result after, call (ovm.guardedRun harmless fuel) level caller addr input gas
          value before = .ok (result, after) →
        (CallAtomic ovm fuel level caller addr input gas value before ↔
          CallHarmless ovm fuel level caller addr input gas value before)) ∧
      ∀ code codeHash address,
        CreateHarmless ovm fuel level caller code codeHash gas value address before →
          CreateAtomic ovm fuel level caller code codeHash gas value address before :=
  ⟨fun _ _ => callAtomic_of_harmless,
    fun _ _ _ _ ran => ⟨callHarmless_of_atomic ran, callAtomic_of_harmless⟩,
    fun _ _ _ => createAtomic_of_harmless⟩

end OVM

end

open Library.Computation

attribute [local instance] sampleCrypto

def revertingWorld : World where
  db := contractDB [0x60, 0, 0x60, 0, 0xfd]
    0x9c8d1cd1e8729d5714bbb461fcce463172f4b1c3ae57698a589dc69a747d4051

def storingWorld : World where
  db := contractDB [0x60, 1, 0x60, 0, 0x55, 0x60, 0, 0x60, 0, 0xfd]
    0x2d131ad16f1b225292fd6d7b38d449ee8071b46c3dc4400551041562f41f0fd7

theorem reverting_frames_atomic :
    OVM.CallAtomic sampleOVM 20 {} (.account 0x11) 0xc0 [] 100000 0 revertingWorld ∧
      OVM.CreateAtomic sampleOVM 20 {} (.account 0x11) [0xfe] 0 100000 1000001 0xc1
        revertingWorld := by
  have accepted : returns (fun _ _ => true)
      (OVM.call (sampleOVM.guardedRun harmless 20) {} (.account 0x11) 0xc0 [] 100000 0
        revertingWorld) = true := by
    decide +kernel
  rcases exists_of_returns accepted with ⟨res, after, ran, -⟩
  refine ⟨(OVM.failed_frame_atomic_of_harmless sampleOVM 20 {} (.account 0x11) 100000 0
    revertingWorld).1 0xc0 [] (.inr (.inr ⟨⟨?_, ?_, .inl rfl⟩, res, after, ran⟩)),
    (OVM.failed_frame_atomic_of_harmless sampleOVM 20 {} (.account 0x11) 100000 1000001
      revertingWorld).2.2 [0xfe] 0 0xc1 (.inl (.inr (.inl ?_)))⟩
  · change (revertingWorld.db.ledger 0x11).isSome = true
    decide +kernel
  · change (revertingWorld.db.ledger 0xc0).isSome = true
    decide +kernel
  · decide +kernel

theorem reverted_transfer_not_atomic :
    ¬ OVM.CallAtomic sampleOVM 20 {} (.account 0x11) 0xc0 [] 100000 7 revertingWorld := by
  have accepted : returns (fun result _ => decide (result.err ≠ none))
      (OVM.call (sampleOVM.guardedRun harmless 20) {} (.account 0x11) 0xc0 [] 100000 7
        revertingWorld) = true := by
    decide +kernel
  rcases exists_of_returns accepted with ⟨_, _, ran, failed⟩
  refine OVM.not_callAtomic_of_moved (by decide) ?_ ran (of_decide_eq_true failed)
  intro same
  have moved := congrArg (fun ledger => Ledger.balance ledger 0xc0) same
  exact absurd moved (by decide +kernel)

/-- A call that fails with a revert keeps the seven that it moved and the one
that it stored. -/
theorem reverted_call_not_atomic :
    ∃ result after,
      OVM.call (sampleOVM.run 20) {} (.account 0x11) 0xc0 [] 100000 7 storingWorld =
          .ok (result, after) ∧ result.err = some .executionReverted ∧
        (storingWorld.db.getBalance 0xc0).1 = 10 ∧ (after.db.getBalance 0xc0).1 = 17 ∧
        (storingWorld.db.getState 0xc0 0).1 = 0 ∧ (after.db.getState 0xc0 0).1 = 1 ∧
        ¬ OVM.CallAtomic sampleOVM 20 {} (.account 0x11) 0xc0 [] 100000 7 storingWorld := by
  have kept : returns (fun result after =>
        decide (result.err = some .executionReverted) &&
          decide ((after.db.getBalance 0xc0).1 = 17) && decide ((after.db.getState 0xc0 0).1 = 1))
      (OVM.call (sampleOVM.run 20) {} (.account 0x11) 0xc0 [] 100000 7 storingWorld) = true := by
    decide +kernel
  rcases exists_of_returns kept with ⟨result, after, ran, checks⟩
  simp only [Bool.and_eq_true, decide_eq_true_eq] at checks
  rcases checks with ⟨⟨reverted, moved⟩, stored⟩
  have heldTen : (storingWorld.db.getBalance 0xc0).1 = 10 := by decide +kernel
  refine ⟨result, after, ran, reverted, heldTen, moved, by decide +kernel, stored, ?_⟩
  intro atomic
  have same := atomic result after ran (by simp [reverted])
  rw [OperationDB.getBalance_fst] at moved heldTen
  rw [same, heldTen] at moved
  exact absurd moved (by decide)

end Octopus
