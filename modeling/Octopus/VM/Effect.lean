import Octopus.VM.Transfer

/-!
# The effects of execution on a ledger

Whatever bytecode does, it changes the ledger by a sequence of effects of seven kinds.  A
policy says which effect is permitted on which ledger; an invariant of every permitted
effect is an invariant of every permitted sequence.
-/

namespace Octopus

open OperationDB

variable {ledger : Ledger} {amount : Int}

inductive Effect where
  | transfer (sender recipient : Address) (amount : Int)
  | bumpNonce (address : Address)
  | openAccount (address : Address)
  | startNonce (address : Address)
  | setCode (address : Address) (code : Bytes)
  | setState (address : Address) (key value : Hash)
  | selfdestruct (address beneficiary : Address)

variable {effect : Effect}

abbrev Policy := Effect → Ledger → Prop

namespace Ledger

def NonNegative (ledger : Ledger) : Prop :=
  ∀ address, 0 ≤ ledger.balance address

variable (ledger : Ledger) (addr other : Address)

theorem balance_suicide : (ledger.suicide addr).balance other =
      if other = addr then 0 else ledger.balance other := by
  by_cases same : other = addr
  · subst same
    cases found : ledger other <;> simp [balance, suicide, found]
  · simp [balance, suicide, same]

theorem nonce_suicide : (ledger.suicide addr).nonce other = ledger.nonce other := by
  by_cases same : other = addr
  · subst same
    cases found : ledger other <;> simp [nonce, suicide, found]
  · simp [nonce, suicide, same]

theorem NonNegative.suicide {ledger : Ledger} (nonNegative : ledger.NonNegative)
    (addr : Address) : (ledger.suicide addr).NonNegative := by
  intro other
  rw [balance_suicide]
  split
  · exact le_rfl
  · exact nonNegative other

end Ledger

def Policy.covered : Policy
  | .transfer sender _ amount, ledger => 0 ≤ amount ∧ amount ≤ ledger.balance sender
  | _, _ => True

def Policy.fresh : Policy
  | .openAccount address, ledger => ledger.nonce address = 0
  | .startNonce address, ledger => ledger.nonce address = 0
  | _, _ => True

inductive Effect.OfCreation (value : Int) : Effect → Ledger → Prop where
  | bumpNonce {ledger : Ledger} {address : Address}
      (room : ledger.nonce address + 1 < uint64Size) : OfCreation value (.bumpNonce address) ledger
  | openAccount {ledger : Ledger} {address : Address} (unused : ledger.nonce address = 0) :
      OfCreation value (.openAccount address) ledger
  | startNonce {ledger : Ledger} {address : Address} (unused : ledger.nonce address = 0) :
      OfCreation value (.startNonce address) ledger
  | endow {ledger : Ledger} {sender recipient : Address}
      (covered : value ≤ ledger.balance sender) :
      OfCreation value (.transfer sender recipient value) ledger
  | setCode {ledger : Ledger} (address : Address) (code : Bytes) :
      OfCreation value (.setCode address code) ledger

def Policy.AdmitsCreation (policy : Policy) (value : Int) : Prop :=
  ∀ effect ledger, Effect.OfCreation value effect ledger → policy effect ledger

theorem Policy.covered_admitsCreation {value : Int} (positive : 0 ≤ value) :
    Policy.covered.AdmitsCreation value := by
  intro _ _ created
  cases created with
  | endow covered => exact ⟨positive, covered⟩
  | bumpNonce | openAccount | startNonce | setCode => trivial

theorem Policy.fresh_admitsCreation (value : Int) : Policy.fresh.AdmitsCreation value := by
  intro _ _ created
  cases created with
  | endow | bumpNonce => trivial
  | openAccount unused | startNonce unused => exact unused
  | setCode => trivial

variable [Crypto]

def Effect.apply : Effect → Ledger → Ledger
  | transfer sender recipient amount, ledger => ledger.transfer sender recipient amount
  | bumpNonce address, ledger => ledger.setNonce address (ledger.nonce address + 1)
  | openAccount address, ledger => ledger.createAccount address
  | startNonce address, ledger => ledger.setNonce address 1
  | setCode address code, ledger => ledger.setCode address code
  | setState address key value, ledger => ledger.setState address key value
  | selfdestruct address beneficiary, ledger =>
    (ledger.addBalance beneficiary (ledger.balance address)).suicide address

def Effect.perform : Effect → OperationDB → OperationDB
  | transfer sender recipient amount, db => Octopus.transfer db sender recipient amount
  | bumpNonce address, db => db.setNonce address ((db.getNonce address).1 + 1)
  | openAccount address, db => db.createAccount address
  | startNonce address, db => db.setNonce address 1
  | setCode address code, db => db.setCode address code
  | setState address key value, db => db.setState address key value
  | selfdestruct address beneficiary, db =>
    (((db.getBalance address).2.addBalance beneficiary (db.getBalance address).1).suicide
      address).2

theorem Effect.ledger_perform (effect : Effect) (db : OperationDB) :
    (effect.perform db).ledger = effect.apply db.ledger := by
  cases effect with
  | transfer sender payee amount => exact ledger_transfer db sender payee amount
  | bumpNonce => rw [perform, ledger_setNonce, getNonce_fst, apply]
  | openAccount addr => exact db.ledger_createAccount addr
  | startNonce addr => exact db.ledger_setNonce addr 1
  | setCode addr code => exact db.ledger_setCode addr code
  | setState addr key value => exact db.ledger_setState addr key value
  | selfdestruct =>
    rw [perform, ledger_suicide, ledger_addBalance, ledger_getBalance, getBalance_fst, apply]

namespace Policy

def Step (policy : Policy) (before after : Ledger) : Prop :=
  ∃ effect, policy effect before ∧ after = effect.apply before

def Steps (policy : Policy) : Ledger → Ledger → Prop :=
  Relation.ReflTransGen policy.Step

variable {policy : Policy} {old mid new : Ledger}

theorem Steps.refl (ledger : Ledger) : policy.Steps ledger ledger :=
  Relation.ReflTransGen.refl

theorem Steps.trans (first : policy.Steps old mid) (second : policy.Steps mid new) :
    policy.Steps old new :=
  Relation.ReflTransGen.trans first second

theorem Steps.single (permitted : policy effect old) : policy.Steps old (effect.apply old) :=
  Relation.ReflTransGen.single ⟨effect, permitted, rfl⟩

theorem Steps.preserves (property : Ledger → Prop) (steps : policy.Steps old new)
    (kept : ∀ effect ledger, policy effect ledger → property ledger →
      property (effect.apply ledger)) (holds : property old) : property new := by
  induction steps with
  | refl => exact holds
  | tail _ step ih =>
    rcases step with ⟨effect, permitted, rfl⟩
    exact kept effect _ permitted ih

end Policy

namespace Ledger

variable {ledger : Ledger}

theorem balance_le_entry (ledger : Ledger) (addr : Address) :
    ledger.balance addr ≤ (ledger.entry addr).balance := by
  by_cases here : ledger.Exists addr
  · exact (ledger.balance_entry addr here).ge
  · have added := ledger.balance_entry_of_absent addr here
    omega

theorem balance_le_modify (ledger : Ledger) (addr : Address) (change : Account → Account)
    (kept : (change (ledger.entry addr)).balance = (ledger.entry addr).balance)
    (other : Address) : ledger.balance other ≤ (ledger.modify addr change).balance other := by
  rw [balance_modify]
  split
  · next same =>
    subst same
    rw [kept]
    exact ledger.balance_le_entry other
  · exact le_rfl

variable (nonNegative : ledger.NonNegative) (addr : Address)
include nonNegative

theorem NonNegative.entry : 0 ≤ (ledger.entry addr).balance :=
  (nonNegative addr).trans (ledger.balance_le_entry addr)

theorem NonNegative.modify (change : Account → Account)
    (covered : 0 ≤ (change (ledger.entry addr)).balance) :
    (ledger.modify addr change).NonNegative := by
  intro other
  rw [balance_modify]
  split
  · exact covered
  · exact nonNegative other

theorem NonNegative.addBalance {addr : Address}
    (covered : 0 ≤ (ledger.entry addr).balance + amount) :
    (ledger.addBalance addr amount).NonNegative :=
  nonNegative.modify addr _ covered

theorem NonNegative.transfer {sender payee : Address} (positive : 0 ≤ amount)
    (covered : amount ≤ ledger.balance sender) :
    (ledger.transfer sender payee amount).NonNegative := by
  have paid : (ledger.addBalance sender (-amount)).NonNegative := by
    apply nonNegative.addBalance
    have atLeast := ledger.balance_le_entry sender
    omega
  apply paid.addBalance
  have kept := paid.entry payee
  omega

end Ledger

theorem Effect.nonNegative_apply (permitted : Policy.covered effect ledger)
    (nonNegative : ledger.NonNegative) : (effect.apply ledger).NonNegative := by
  cases effect with
  | transfer => exact nonNegative.transfer permitted.1 permitted.2
  | bumpNonce addr | openAccount addr | startNonce addr | setCode addr _
  | setState addr _ _ =>
    rw [apply]
    exact nonNegative.modify addr _ (nonNegative.entry addr)
  | selfdestruct addr beneficiary =>
    apply Ledger.NonNegative.suicide
    apply nonNegative.addBalance
    exact add_nonneg (nonNegative.entry beneficiary) (nonNegative addr)

theorem Policy.Steps.nonNegative {old new : Ledger}
    (steps : Policy.covered.Steps old new) (nonNegative : old.NonNegative) : new.NonNegative :=
  Policy.Steps.preserves _ steps (fun _ _ permitted => Effect.nonNegative_apply permitted)
    nonNegative

namespace Ledger

variable (ledger : Ledger)

theorem nonce_setNonce (addr other : Address) (nonce : Nat) :
    (ledger.setNonce addr nonce).nonce other = if other = addr then nonce else ledger.nonce other :=
  nonce_modify ledger addr other _

theorem nonce_le_modify (addr : Address) (change : Account → Account)
    (raised : ledger.nonce addr ≤ (change (ledger.entry addr)).nonce) (other : Address) :
    ledger.nonce other ≤ (ledger.modify addr change).nonce other := by
  rw [nonce_modify]
  split
  · next same =>
    subst same
    exact raised
  · exact le_rfl

theorem nonce_addBalance (addr other : Address) (amount : Int) :
    (ledger.addBalance addr amount).nonce other = ledger.nonce other := by
  rw [addBalance, nonce_modify]
  split
  · next same =>
    subst same
    exact ledger.nonce_entry other
  · rfl

end Ledger

theorem Effect.nonce_le_apply (permitted : Policy.fresh effect ledger) (other : Address) :
    ledger.nonce other ≤ (effect.apply ledger).nonce other := by
  cases effect with
  | transfer => rw [apply, Ledger.transfer, Ledger.nonce_addBalance, Ledger.nonce_addBalance]
  | bumpNonce addr =>
    rw [apply]
    exact ledger.nonce_le_modify addr _ (Nat.le_succ _) other
  | openAccount addr | startNonce addr =>
    have zero : ledger.nonce addr = 0 := permitted
    rw [apply]
    exact ledger.nonce_le_modify addr _ (zero.trans_le (Nat.zero_le _)) other
  | setCode addr _ | setState addr _ _ =>
    rw [apply]
    exact ledger.nonce_le_modify addr _ (ledger.nonce_entry addr).ge other
  | selfdestruct => rw [apply, Ledger.nonce_suicide, Ledger.nonce_addBalance]

theorem Policy.Steps.nonce_le {old new : Ledger}
    (steps : Policy.fresh.Steps old new) (addr : Address) : old.nonce addr ≤ new.nonce addr := by
  refine Policy.Steps.preserves (fun ledger => old.nonce addr ≤ ledger.nonce addr) steps ?_ le_rfl
  intro _ ledger permitted atLeast
  exact atLeast.trans (Effect.nonce_le_apply permitted addr)

end Octopus
