import Octopus.VM.Effect
import Octopus.VM.OVM

/-!
# What frames do to the state database

A guarded run stops where the guard rejects a request and is otherwise the run of the
source (`guardedRun_refines`).  Every returning guarded run is a sequence of reads,
bookkeeping and effects that the policy of the guard permits (`guardedRun_traced`).
-/

namespace Octopus

open OperationDB Effect

variable {res : CreateResult} {handler : Level → (query : Request) → Go World query.Reply}

namespace Request

def opens : Request → Bool
  | call _ _ _ _ _ => true
  | create _ _ _ _ => true
  | create2 _ _ _ _ _ => true
  | _ => false

def writes : Request → Bool
  | setState _ _ _ => true
  | selfdestruct _ _ => true
  | addLog _ => true
  | create _ _ _ _ => true
  | create2 _ _ _ _ _ => true
  | call _ _ _ _ value => value != 0
  | _ => false

end Request

/-- Nothing but logs, refunds, access lists and undo entries has changed. -/
structure SameAccounts (before after : OperationDB) : Prop where
  database : after.database = before.database
  trie : after.trie = before.trie
  objects : after.objects = before.objects
  pending : after.pending = before.pending
  dirty : after.dirty = before.dirty
  dirties : after.journal.dirties = before.journal.dirties

theorem nonce_overflows_iff (nonce : Nat) :
    (nonce + 1) % uint64Size < nonce ↔ uint64Size ≤ nonce + 1 := by
  unfold uint64Size
  omega

section

variable {Value Other : Type} (old : World)

@[simp]
theorem readDB_bind (read : OperationDB → Value × OperationDB) (next : Value → Go World Other) :
    (readDB read >>= next) old = next (read old.db).1 { old with db := (read old.db).2 } := rfl

@[simp]
theorem writeDB_bind (write : OperationDB → OperationDB) (next : Unit → Go World Other) :
    (writeDB write >>= next) old = next () { old with db := write old.db } := rfl

variable (caller : ContractRef)

@[simp]
theorem enterFrame_bind (next : Unit → Go World Other) :
    (enterFrame caller >>= next) old = next () (old.enter caller) := rfl

@[simp]
theorem World.db_enter : (old.enter caller).db = old.db := by
  cases caller <;> rfl

end

theorem logs_readObject {Value : Type} (db : OperationDB) (addr : Address) (absent : Value)
    (read : OperationObject → Database → Value × OperationObject) :
    (db.readObject addr absent read).2.logs = db.logs := by
  have looked : (db.getOperationObject addr).2.logs = db.logs := by
    rcases db.getOperationObject_snd addr with same | ⟨_, -, same⟩ <;> rw [same]
    rfl
  unfold OperationDB.readObject
  split <;> next isRead =>
    rw [isRead] at looked
    exact looked

variable [Crypto]

inductive DBStep (policy : Policy) : OperationDB → OperationDB → Prop where
  | read {db : OperationDB} {Value : Type} (address : Address) (absent : Value)
      (read : OperationObject → Database → Value × OperationObject)
      (caches : ∀ object database,
        (read object database).2.account database = object.account database)
      (marks : ∀ (object : OperationObject) database, object.SameMarks (read object database).2) :
      DBStep policy db (db.readObject address absent read).2
  | note {before after : OperationDB} (same : SameAccounts before after) :
      DBStep policy before after
  | effect {db : OperationDB} (effect : Effect) (permitted : policy effect db.ledger) :
      DBStep policy db (effect.perform db)

def Trace (policy : Policy) : OperationDB → OperationDB → Prop :=
  Relation.ReflTransGen (DBStep policy)

abbrev Quiet : OperationDB → OperationDB → Prop :=
  Trace fun _ _ => False

theorem SameAccounts.ledger {old new : OperationDB} (same : SameAccounts old new) :
    new.ledger = old.ledger := by
  funext addr
  simp [OperationDB.ledger, OperationDB.find, same.objects, same.trie, same.database]

namespace Trace

variable {policy : Policy} {old mid new : OperationDB} (db : OperationDB)

theorem refl : Trace policy db db :=
  Relation.ReflTransGen.refl

theorem trans (first : Trace policy old mid) (second : Trace policy mid new) :
    Trace policy old new :=
  Relation.ReflTransGen.trans first second

theorem single (step : DBStep policy old new) : Trace policy old new :=
  Relation.ReflTransGen.single step

instance : IsPreorder OperationDB (Trace policy) where
  refl := refl
  trans _ _ _ := trans

theorem steps (trace : Trace policy old new) : policy.Steps old.ledger new.ledger := by
  induction trace with
  | refl => exact Policy.Steps.refl _
  | tail _ step ih =>
    refine ih.trans ?_
    cases step with
    | read _ _ _ caches _ =>
      rw [ledger_readObject _ _ caches]
      exact Policy.Steps.refl _
    | note same =>
      rw [same.ledger]
      exact Policy.Steps.refl _
    | effect effect permitted =>
      rw [effect.ledger_perform]
      exact Policy.Steps.single permitted

theorem mono {wider : Policy} (trace : Trace policy old new)
    (included : ∀ effect ledger, policy effect ledger → wider effect ledger) :
    Trace wider old new := by
  induction trace with
  | refl => exact refl old
  | tail _ step ih =>
    refine ih.trans (single ?_)
    cases step with
    | read addr absent read caches marks => exact .read addr absent read caches marks
    | note same => exact .note same
    | effect effect permitted => exact .effect effect (included _ _ permitted)

theorem ofQuiet (quiet : Quiet old new) : Trace policy old new :=
  quiet.mono fun _ _ impossible => impossible.elim

theorem ledger_of_quiet (quiet : Quiet old new) : new.ledger = old.ledger := by
  rcases Relation.ReflTransGen.cases_tail quiet.steps with same | ⟨_, _, _, impossible, _⟩
  · exact same
  · exact impossible.elim

variable (addr : Address)

theorem getBalance : Trace policy db (db.getBalance addr).2 :=
  single (.read addr _ _ (fun _ _ => rfl) fun _ _ => ⟨rfl, rfl⟩)

theorem getNonce : Trace policy db (db.getNonce addr).2 :=
  single (.read addr _ _ (fun _ _ => rfl) fun _ _ => ⟨rfl, rfl⟩)

theorem getCodeHash : Trace policy db (db.getCodeHash addr).2 :=
  single (.read addr _ _ (fun _ _ => rfl) fun _ _ => ⟨rfl, rfl⟩)

theorem getCode : Trace policy db (db.getCode addr).2 :=
  single (.read addr _ _ (fun obj disk => obj.account_getCode disk)
    fun obj disk => obj.sameMarks_getCode disk)

theorem canTransfer (amount : Int) : Trace policy db (canTransfer db addr amount).2 :=
  getBalance db addr

theorem addAddressToAccessList : Trace policy db (db.addAddressToAccessList addr) := by
  unfold OperationDB.addAddressToAccessList
  split
  · exact single (.note ⟨rfl, rfl, rfl, rfl, rfl, rfl⟩)
  · exact refl db

theorem addSlotToAccessList (slot : Hash) : Trace policy db (db.addSlotToAccessList addr slot) := by
  refine single (.note ?_)
  unfold OperationDB.addSlotToAccessList
  dsimp only
  split <;> split <;> exact ⟨rfl, rfl, rfl, rfl, rfl, rfl⟩

end Trace

def World.Traced (policy : Policy) (before after : World) : Prop :=
  Trace policy before.db after.db

instance (policy : Policy) : IsPreorder World (World.Traced policy) where
  refl _ := Trace.refl _
  trans _ _ _ := Trace.trans

def Runner.Traced (policy : Policy) (runner : Runner) : Prop :=
  ∀ level contract input readOnly,
    (runner level contract input readOnly).Related (World.Traced policy)

def Runner.Refines (first second : Runner) : Prop :=
  ∀ level contract input readOnly,
    (first level contract input readOnly).Refines (second level contract input readOnly)

def Runner.Agrees (strict runner : Runner) : Prop :=
  ∀ level contract input readOnly before,
    strict level contract input readOnly before = runner level contract input readOnly before ∨
      strict level contract input readOnly before = .error (.panic "rejected")

variable {policy : Policy} {runner : Runner} {old new : World}

namespace OVM

open Library.Computation

variable {level : Level} {caller : ContractRef} {addr : Address} {input : Bytes} {gas : Nat}
  {value : Int}

theorem call_of_deep (deep : level.depth > Params.callCreateDepth) :
    call runner level caller addr input gas value old =
      .ok ({ ret := [], leftOverGas := gas, err := some .callDepth }, old) := by
  rw [call, if_pos deep]
  rfl

theorem call_moves {res : CallResult} (runs : runner.Traced policy)
    (shallow : ¬ level.depth > Params.callCreateDepth)
    (returned : call runner level caller addr input gas value old = .ok (res, new)) :
    ∃ checked moved, Quiet old.db checked ∧
      moved = (Effect.transfer caller.address addr value).perform checked ∧
        Trace policy moved new.db := by
  unfold call at returned
  rw [if_neg shallow, readDB_bind, writeDB_bind] at returned
  refine ⟨_, _, Trace.canTransfer old.db addr 20, rfl, ?_⟩
  cases precompiled : precompile addr with
  | some =>
    simp only [precompiled, pure_eq_ok] at returned
    rw [← returned.2]
    exact Trace.refl _
  | none =>
    simp only [precompiled, readDB_bind] at returned
    refine (Trace.getCode _ addr).trans ?_
    split at returned
    · rw [← (pure_eq_ok.mp returned).2]
      exact Trace.refl _
    rw [enterFrame_bind, readDB_bind] at returned
    rcases bind_eq_ok.mp returned with ⟨⟨⟨_, _⟩, _⟩, _, ran, returned⟩
    rw [← (pure_eq_ok.mp returned).2]
    refine Trace.trans ?_ (runs _ _ _ _ ran)
    rw [World.db_enter]
    exact Trace.getCodeHash _ addr

theorem call_traced {res : CallResult} (runs : runner.Traced policy)
    (permitted : level.depth ≤ Params.callCreateDepth →
      policy (.transfer caller.address addr value) old.db.ledger)
    (returned : call runner level caller addr input gas value old = .ok (res, new)) :
    old.Traced policy new := by
  by_cases deep : level.depth > Params.callCreateDepth
  · rw [call_of_deep deep] at returned
    cases returned
    exact Trace.refl _
  rcases call_moves runs deep returned with ⟨_, _, quiet, rfl, trace⟩
  refine (Trace.ofQuiet quiet).trans (Trace.trans (Trace.single ?_) trace)
  refine .effect _ ?_
  rw [Trace.ledger_of_quiet quiet]
  exact permitted (not_lt.mp deep)

omit [Crypto] in
theorem callCode_eq_ok {caller : Address} {res : CallResult}
    (returned : callCode level caller gas value old = .ok (res, new)) :
    res.leftOverGas = gas ∧
      (new = old ∨ new = { old with db := (canTransfer old.db caller value).2 }) := by
  unfold callCode at returned
  split at returned
  · cases returned
    exact ⟨rfl, .inl rfl⟩
  rw [readDB_bind] at returned
  split at returned
  · cases returned
  · cases returned
    exact ⟨rfl, .inr rfl⟩

omit [Crypto] in
theorem snapshotCall_eq_ok {res : CallResult}
    (returned : snapshotCall level gas old = .ok (res, new)) :
    res.leftOverGas = gas ∧ new = old := by
  unfold snapshotCall at returned
  split at returned
  · cases returned
    exact ⟨rfl, rfl⟩
  · cases returned

variable {ovm : OVM} {code : Bytes} {codeHash : Hash} {addr : Address}

theorem storeCode_traced {ret : Bytes} {err : Option VMError} (admits : policy.AdmitsCreation value)
    (returned : storeCode ovm addr ret err gas old = .ok (res, new)) : old.Traced policy new := by
  unfold storeCode at returned
  split_ifs at returned
  iterate 4
    · rw [← (pure_eq_ok.mp returned).2]
      exact Trace.refl _
  · rw [← (pure_eq_ok.mp returned).2]
    exact Trace.single (.effect (.setCode addr ret) (admits _ _ (.setCode addr ret)))

theorem deploy_traced (runs : runner.Traced policy) (admits : policy.AdmitsCreation value)
    (unused : old.db.ledger.nonce addr = 0)
    (covered : value ≤ old.db.ledger.balance caller.address)
    (returned : deploy ovm runner level caller code codeHash gas value addr old =
      .ok (res, new)) : old.Traced policy new := by
  unfold deploy at returned
  rw [writeDB_bind, writeDB_bind, writeDB_bind, enterFrame_bind] at returned
  have opened : Trace policy old.db (old.db.createAccount addr) :=
    Trace.single (.effect (.openAccount addr) (admits _ _ (.openAccount unused)))
  refine opened.trans ?_
  have openedLedger := old.db.ledger_createAccount addr
  have stillCovered : value ≤ (old.db.createAccount addr).ledger.balance caller.address := by
    rw [openedLedger]
    exact covered.trans (Ledger.balance_le_modify _ addr _ rfl _)
  have stillUnused : (old.db.createAccount addr).ledger.nonce addr = 0 := by
    rw [openedLedger, Ledger.createAccount, Ledger.nonce_modify, if_pos rfl]
    rfl
  generalize old.db.createAccount addr = created at *
  have started : Trace policy created
      (if ovm.rules.isEIP158 then created.setNonce addr 1 else created) ∧
        value ≤ (if ovm.rules.isEIP158 then created.setNonce addr 1
          else created).ledger.balance caller.address := by
    split
    · refine ⟨Trace.single (.effect (.startNonce addr) (admits _ _ (.startNonce stillUnused))), ?_⟩
      rw [ledger_setNonce]
      exact stillCovered.trans (Ledger.balance_le_modify _ addr _ rfl _)
    · exact ⟨Trace.refl _, stillCovered⟩
  refine started.1.trans ?_
  have covers := started.2
  refine Trace.trans (Trace.single
    (.effect (.transfer caller.address addr value) (admits _ _ (.endow covers)))) ?_
  rcases bind_eq_ok.mp returned with ⟨⟨⟨_, _⟩, _⟩, _, ran, returned⟩
  have ranTrace := runs _ _ _ _ ran
  unfold World.Traced at ranTrace
  rw [World.db_enter] at ranTrace
  exact ranTrace.trans (storeCode_traced admits returned)

def CreationRefused (level : Level) (ledger : Ledger) (caller : Address) (value : Int) : Prop :=
  level.depth > Params.callCreateDepth ∨ ledger.balance caller < value ∨
    uint64Size ≤ ledger.nonce caller + 1

def AddressTaken (ledger : Ledger) (address : Address) : Prop :=
  ledger.nonce address ≠ 0 ∨ (ledger.codeHash address ≠ 0 ∧ ledger.codeHash address ≠ emptyCodeHash)

section

variable (returned : create ovm runner level caller code codeHash gas value addr old =
  .ok (res, new))
include returned

theorem create_cases : (CreationRefused level old.db.ledger caller.address value ∧
        Quiet old.db new.db) ∨ ¬ CreationRefused level old.db.ledger caller.address value ∧
        ∃ ready prepared : World, Quiet old.db ready.db ∧
          Quiet ((bumpNonce caller.address).perform ready.db) prepared.db ∧
          (AddressTaken prepared.db.ledger addr ∧ new = prepared ∨
            ¬ AddressTaken prepared.db.ledger addr ∧
              deploy ovm runner level caller code codeHash gas value addr prepared =
                .ok (res, new)) := by
  unfold create at returned
  by_cases tooDeep : level.depth > Params.callCreateDepth
  · rw [if_pos tooDeep, pure_eq_ok] at returned
    rw [returned.2]
    exact .inl ⟨.inl tooDeep, Trace.refl _⟩
  rw [if_neg tooDeep, readDB_bind, canTransfer_fst] at returned
  by_cases covered : value ≤ old.db.ledger.balance caller.address
  case neg =>
    rw [if_neg (by simpa using covered)] at returned
    rw [← (pure_eq_ok.mp returned).2]
    exact .inl ⟨.inr (.inl (not_le.mp covered)), Trace.canTransfer old.db _ value⟩
  have checked : Quiet old.db (canTransfer old.db caller.address value).2 :=
    Trace.canTransfer old.db caller.address value
  have sameLedger := ledger_canTransfer old.db caller.address value
  rw [if_pos (by simpa using covered), readDB_bind] at returned
  generalize (canTransfer old.db caller.address value).2 = db at *
  simp only [getNonce_fst, sameLedger] at returned
  by_cases overflows : uint64Size ≤ old.db.ledger.nonce caller.address + 1
  · rw [if_pos ((nonce_overflows_iff _).mpr overflows), pure_eq_ok] at returned
    rw [← returned.2]
    exact .inl ⟨.inr (.inr overflows), checked.trans (Trace.getNonce db _)⟩
  rw [if_neg (mt (nonce_overflows_iff _).mp overflows)] at returned
  simp only [writeDB_bind, readDB_bind] at returned
  refine .inr ⟨?_, { old with db := (db.getNonce caller.address).2 }, ?_⟩
  · rintro (deep | poor | full)
    · exact tooDeep deep
    · exact absurd covered (not_le.mpr poor)
    · exact overflows full
  have bumped : (db.getNonce caller.address).2.setNonce caller.address
      (old.db.ledger.nonce caller.address + 1) =
        (bumpNonce caller.address).perform (db.getNonce caller.address).2 := by
    rw [perform, getNonce_fst, ledger_getNonce, sameLedger]
  rw [bumped] at returned
  generalize (bumpNonce caller.address).perform (db.getNonce caller.address).2 = raised at *
  have listed : Quiet raised
      (if ovm.rules.isBerlin then raised.addAddressToAccessList addr else raised) := by
    split
    · exact Trace.addAddressToAccessList raised addr
    · exact Trace.refl raised
  generalize (if ovm.rules.isBerlin then raised.addAddressToAccessList addr else raised) =
    entered at *
  have probed : Quiet entered ((entered.getCodeHash addr).2.getNonce addr).2 :=
    (Trace.getCodeHash entered addr).trans (Trace.getNonce _ addr)
  refine ⟨{ old with db := ((entered.getCodeHash addr).2.getNonce addr).2 },
    checked.trans (Trace.getNonce db _), listed.trans probed, ?_⟩
  simp only [getNonce_fst, getCodeHash_fst, ledger_getCodeHash] at returned
  simp only [ledger_getNonce, ledger_getCodeHash]
  split_ifs at returned with taken
  · exact .inl ⟨taken, (pure_eq_ok.mp returned).2.symm⟩
  · exact .inr ⟨taken, returned⟩

theorem create_bumps (runs : runner.Traced policy) (admits : policy.AdmitsCreation value)
    (notRefused : ¬ CreationRefused level old.db.ledger caller.address value) :
    ∃ ready bumped, Quiet old.db ready ∧
      bumped = (bumpNonce caller.address).perform ready ∧ Trace policy bumped new.db := by
  rcases create_cases returned with ⟨refused, -⟩ | ⟨-, ready, _, toReady, quiet, ends⟩
  · exact absurd refused notRefused
  refine ⟨ready.db, _, toReady, rfl, ?_⟩
  rcases ends with ⟨-, rfl⟩ | ⟨free, deployed⟩
  · exact Trace.ofQuiet quiet
  refine (Trace.ofQuiet quiet).trans (deploy_traced runs admits ?_ ?_ deployed)
  · simp only [AddressTaken, not_or, not_not] at free
    exact free.1
  · rw [Trace.ledger_of_quiet quiet, ledger_perform, Trace.ledger_of_quiet toReady, apply]
    simp only [CreationRefused, not_or, not_lt] at notRefused
    exact notRefused.2.1.trans (Ledger.balance_le_modify _ _ _ rfl _)

theorem create_traced (runs : runner.Traced policy)
    (admits : ¬ CreationRefused level old.db.ledger caller.address value →
      policy.AdmitsCreation value) : old.Traced policy new := by
  by_cases refused : CreationRefused level old.db.ledger caller.address value
  · rcases create_cases returned with ⟨-, quiet⟩ | ⟨notRefused, -⟩
    · exact Trace.ofQuiet quiet
    · exact absurd refused notRefused
  have admitted := admits refused
  rcases create_bumps returned runs admitted refused with ⟨_, _, quiet, rfl, trace⟩
  refine (Trace.ofQuiet quiet).trans (Trace.trans (Trace.single ?_) trace)
  refine .effect _ (admitted _ _ (.bumpNonce ?_))
  rw [Trace.ledger_of_quiet quiet]
  simp only [CreationRefused, not_or, not_le] at refused
  exact refused.2.2

end

end OVM

abbrev Guard := Level → Request → World → Bool

variable {guard : Guard}

/-- What a guard lets through, the policy permits. -/
structure Guard.Enforces (guard : Guard) (policy : Policy) : Prop where
  setState : ∀ level address key value world,
    guard level (.setState address key value) world = true →
      policy (.setState address key value) world.db.ledger
  selfdestruct : ∀ level address beneficiary world,
    guard level (.selfdestruct address beneficiary) world = true →
      policy (.selfdestruct address beneficiary) world.db.ledger
  call : ∀ level caller address input gas value world,
    guard level (.call caller address input gas value) world = true →
      level.depth ≤ Params.callCreateDepth →
        policy (.transfer caller address value.toNat) world.db.ledger
  create : ∀ level caller code gas value world,
    guard level (.create caller code gas value) world = true →
      ¬ OVM.CreationRefused level world.db.ledger caller value.toNat →
        policy.AdmitsCreation value.toNat
  create2 : ∀ level caller code gas value salt world,
    guard level (.create2 caller code gas value salt) world = true →
      ¬ OVM.CreationRefused level world.db.ledger caller value.toNat →
        policy.AdmitsCreation value.toNat

namespace OVM

open Library.Computation

def guardedRun (guard : Guard) (ovm : OVM) : Nat → Runner
  | 0 => fun _ _ _ _ => fault .outOfFuel
  | fuel + 1 =>
    runFrame ovm fuel fun level question =>
      (answer ovm (guardedRun guard ovm fuel) level question).restrict (guard level question)
        (.panic "rejected")

variable {ovm : OVM} {level : Level}

theorem runFrame_related {relation : World → World → Prop} [IsPreorder World relation]
    (answers : ∀ level query, (handler level query).Related relation) (fuel : Nat)
    (level : Level) (contract : Contract) (input : Bytes) (readOnly : Bool) :
    (runFrame ovm fuel handler level contract input readOnly).Related relation := by
  unfold runFrame
  split
  · exact Related.pure _
  · refine (Library.Interaction.perform_related (answers _) _).bind ?_
    rintro ⟨⟨_, _⟩, _⟩
    exact Related.pure _

theorem answer_subRefund (gas : Nat) (old : World) :
    answer ovm runner level (.subRefund gas) old =
      if old.db.refund < gas then .error (.panic "Refund counter below zero")
      else .ok ((), { old with
        db := { old.db.append (.refund old.db.refund) with
          refund := old.db.refund - gas } }) := by
  by_cases short : old.db.refund < gas <;> simp [answer, OperationDB.subRefund, short]

theorem answer_quiet {query : Request} {reply : query.Reply}
    (unopened : query.opens = false) (reads : query.writes = false)
    (returned : answer ovm runner level query old = .ok (reply, new)) :
    Quiet old.db new.db ∧ new.db.logs = old.db.logs := by
  cases query with
  | getBalance addr =>
    cases returned
    exact ⟨Trace.getBalance old.db addr, logs_readObject ..⟩
  | getCode addr =>
    cases returned
    exact ⟨Trace.getCode old.db addr, logs_readObject ..⟩
  | getCodeSize addr =>
    cases returned
    refine ⟨Trace.single (.read addr _ _ ?_ ?_), logs_readObject ..⟩
    · exact fun obj disk => obj.account_codeSize disk
    · exact fun obj disk => obj.sameMarks_codeSize disk
  | getCodeHash addr =>
    cases returned
    exact ⟨Trace.getCodeHash old.db addr, logs_readObject ..⟩
  | empty addr | exist addr =>
    cases returned
    refine ⟨Trace.single (.read addr _ _ ?_ ?_), logs_readObject ..⟩
    · exact fun _ _ => rfl
    · exact fun _ _ => ⟨rfl, rfl⟩
  | getState addr key =>
    cases returned
    refine ⟨Trace.single (.read addr _ _ ?_ ?_), logs_readObject ..⟩
    · exact fun obj disk => obj.account_getState disk key
    · exact fun obj disk => obj.sameMarks_getState disk key
  | getCommittedState addr key =>
    cases returned
    refine ⟨Trace.single (.read addr _ _ ?_ ?_), logs_readObject ..⟩
    · exact fun obj disk => obj.account_getCommittedState disk key
    · exact fun obj disk => obj.sameMarks_getCommittedState disk key
  | addRefund =>
    cases returned
    exact ⟨Trace.single (.note ⟨rfl, rfl, rfl, rfl, rfl, rfl⟩), rfl⟩
  | subRefund =>
    rw [answer_subRefund] at returned
    split at returned
    · cases returned
    · cases returned
      exact ⟨Trace.single (.note ⟨rfl, rfl, rfl, rfl, rfl, rfl⟩), rfl⟩
  | addAddressToAccessList addr =>
    cases returned
    refine ⟨Trace.addAddressToAccessList old.db addr, ?_⟩
    change (old.db.addAddressToAccessList addr).logs = _
    unfold OperationDB.addAddressToAccessList
    split <;> rfl
  | addSlotToAccessList addr slot =>
    cases returned
    refine ⟨Trace.addSlotToAccessList old.db addr slot, ?_⟩
    unfold OperationDB.addSlotToAccessList
    dsimp only
    split <;> split <;> rfl
  | callCode caller =>
    rcases callCode_eq_ok returned with ⟨-, rfl | rfl⟩
    · exact ⟨Trace.refl _, rfl⟩
    · refine ⟨Trace.getBalance old.db caller, ?_⟩
      exact logs_readObject old.db caller 0 fun obj _ => (obj.data.balance, obj)
  | delegateCall | staticCall =>
    rcases snapshotCall_eq_ok returned with ⟨-, rfl⟩
    exact ⟨Trace.refl _, rfl⟩
  | _ =>
    first
      | (cases unopened; done)
      | (cases reads; done)
      | (cases returned; done)
      | (cases returned; exact ⟨Trace.refl _, rfl⟩)

theorem answer_traced (enforces : guard.Enforces policy) (runs : runner.Traced policy)
    (level : Level) (query : Request) :
    ((answer ovm runner level query).restrict (guard level query)
      (.panic "rejected")).Related (World.Traced policy) := by
  intro old _ _ restricted
  rcases restrict_eq_ok.mp restricted with ⟨accepted, returned⟩
  cases query with
  | setState addr key value =>
    cases returned
    exact Trace.single (.effect (.setState addr key value)
      (enforces.setState level addr key value old accepted))
  | selfdestruct addr beneficiary =>
    cases returned
    exact Trace.single (.effect (.selfdestruct addr beneficiary)
      (enforces.selfdestruct level addr beneficiary old accepted))
  | addLog =>
    cases returned
    exact Trace.single (.note ⟨rfl, rfl, rfl, rfl, rfl, rfl⟩)
  | call caller addr input gas value =>
    exact call_traced runs (enforces.call level caller addr input gas value old accepted)
      returned
  | create caller code gas value =>
    refine (Trace.getNonce old.db _).trans (create_traced returned runs ?_)
    rw [ledger_getNonce]
    exact enforces.create level caller code gas value old accepted
  | create2 caller code gas value salt =>
    exact create_traced returned runs
      (enforces.create2 level caller code gas value salt old accepted)
  | _ => exact Trace.ofQuiet (answer_quiet rfl rfl returned).1

theorem guardedRun_traced (enforces : guard.Enforces policy) (fuel : Nat) :
    (guardedRun guard ovm fuel).Traced policy := by
  induction fuel with
  | zero =>
    intro _ _ _ _ _ _ _ returned
    exact absurd returned (by simp [guardedRun])
  | succ fuel ih => exact runFrame_related (answer_traced enforces ih) fuel

section

variable {strict : Runner}

section

variable (agrees : strict.Agrees runner)
include agrees

theorem call_agrees (level : Level) (caller : ContractRef) (addr : Address) (input : Bytes)
    (gas : Nat) (value : Int) : (call strict level caller addr input gas value).Agrees
      (.panic "rejected") (call runner level caller addr input gas value) := by
  refine Agrees.ite (fun _ => Agrees.refl _) fun _ => ?_
  refine (Agrees.refl _).bind fun _ => (Agrees.refl _).bind fun _ => ?_
  cases precompile addr with
  | some => exact Agrees.refl _
  | none =>
    refine (Agrees.refl _).bind fun code => ?_
    refine Agrees.ite (fun _ => Agrees.refl _) fun _ => ?_
    refine (Agrees.refl _).bind fun _ => (Agrees.refl _).bind fun _ => ?_
    exact Agrees.bind (agrees _ _ _ _) fun _ => Agrees.refl _

theorem create_agrees (level : Level) (caller : ContractRef) (code : Bytes) (codeHash : Hash)
    (gas : Nat) (value : Int) (addr : Address) :
    (create ovm strict level caller code codeHash gas value addr).Agrees (.panic "rejected")
      (create ovm runner level caller code codeHash gas value addr) := by
  have deploys : (deploy ovm strict level caller code codeHash gas value addr).Agrees
      (.panic "rejected") (deploy ovm runner level caller code codeHash gas value addr) := by
    refine (Agrees.refl _).bind fun _ => (Agrees.refl _).bind fun _ => ?_
    refine (Agrees.refl _).bind fun _ => (Agrees.refl _).bind fun _ => ?_
    exact Agrees.bind (agrees _ _ _ _) fun _ => Agrees.refl _
  refine Agrees.ite (fun _ => Agrees.refl _) fun _ => ?_
  refine (Agrees.refl _).bind fun covered => ?_
  refine Agrees.ite (fun _ => ?_) fun _ => Agrees.refl _
  refine (Agrees.refl _).bind fun nonce => ?_
  refine Agrees.ite (fun _ => Agrees.refl _) fun _ => ?_
  refine (Agrees.refl _).bind fun _ => (Agrees.refl _).bind fun _ => ?_
  refine (Agrees.refl _).bind fun contractHash => (Agrees.refl _).bind fun used => ?_
  exact Agrees.ite (fun _ => Agrees.refl _) fun _ => deploys

theorem createWithNonce_agrees (level : Level) (caller : ContractRef) (code : Bytes) (gas : Nat)
    (value : Int) : (createWithNonce ovm strict level caller code gas value).Agrees
      (.panic "rejected") (createWithNonce ovm runner level caller code gas value) :=
  (Agrees.refl _).bind fun _ => create_agrees agrees _ _ _ _ _ _ _

theorem answer_agrees (level : Level) (query : Request) :
    (answer ovm strict level query).Agrees (.panic "rejected")
      (answer ovm runner level query) := by
  cases query with
  | call => exact call_agrees agrees _ _ _ _ _ _
  | create => exact createWithNonce_agrees agrees _ _ _ _ _
  | create2 => exact create_agrees agrees _ _ _ _ _ _ _
  | _ => exact Agrees.refl _

end

theorem guardedRun_agrees (guard : Guard) (fuel : Nat) :
    (guardedRun guard ovm fuel).Agrees (run ovm fuel) := by
  induction fuel with
  | zero => exact fun _ _ _ _ _ => .inl rfl
  | succ fuel ih =>
    intro level _ _ _
    refine Agrees.ite (fun _ => Agrees.refl _) fun _ => ?_
    refine Agrees.bind (Library.Interaction.perform_agrees (fun query => ?_) _) fun _ =>
      Agrees.refl _
    exact (answer_agrees ih _ query).restrict _

end

theorem guardedRun_refines (guard : Guard) (fuel : Nat) :
    (guardedRun guard ovm fuel).Refines (run ovm fuel) :=
  fun level contract input readOnly =>
    Agrees.refines (guardedRun_agrees guard fuel level contract input readOnly)

theorem guardedRun_accept (fuel : Nat) :
    guardedRun (fun _ _ _ => true) ovm fuel = run ovm fuel := by
  induction fuel with
  | zero => rfl
  | succ _ ih =>
    rw [guardedRun, run, ih]
    rfl

theorem run_traced (fuel : Nat) : (run ovm fuel).Traced Policy.fresh := by
  rw [← guardedRun_accept]
  refine guardedRun_traced ?_ fuel
  constructor <;> intros
  · trivial
  · trivial
  · trivial
  · exact Policy.fresh_admitsCreation _
  · exact Policy.fresh_admitsCreation _

end OVM

end Octopus
