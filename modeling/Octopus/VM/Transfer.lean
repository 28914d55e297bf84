import Mathlib.Algebra.BigOperators.Group.Finset.Piecewise
import Octopus.OperationDB.Refinement

/-!
# Value transfers

`Transfer` subtracts, then adds, and both sides go through the lazy creation of account
objects; no balance is checked.  It conserves value exactly when both accounts exist: one
that it creates starts with the balance that `newObject` gives it.
-/

namespace Octopus

namespace Ledger

variable [Crypto]

def entry (ledger : Ledger) (address : Address) : Account :=
  (ledger address).getD .blank

def total (ledger : Ledger) : Int :=
  ∑ address, ledger.balance address

def Exists (ledger : Ledger) (address : Address) : Prop :=
  (ledger address).isSome

variable (ledger : Ledger) (addr other : Address)

theorem entry_of_some {account : Account} (here : ledger addr = some account) :
    ledger.entry addr = account := by
  simp [entry, here]

theorem balance_entry (here : ledger.Exists addr) :
    (ledger.entry addr).balance = ledger.balance addr := by
  rcases Option.isSome_iff_exists.mp here with ⟨_, found⟩
  simp [entry, balance, found]

theorem balance_entry_of_absent (absent : ¬ ledger.Exists addr) :
    (ledger.entry addr).balance = ledger.balance addr + 200000000 := by
  have missing : ledger addr = none := by simpa [Exists] using absent
  simp [entry, balance, missing, Account.blank]

theorem nonce_entry : (ledger.entry addr).nonce = ledger.nonce addr := by
  rcases found : ledger addr with _ | account <;> simp [entry, nonce, found, Account.blank]

variable (change : Account → Account)

theorem modify_apply :
    ledger.modify addr change other =
      if other = addr then some (change (ledger.entry addr)) else ledger other := by
  by_cases same : other = addr
  · subst same
    simp [modify, entry]
  · simp [modify, same]

theorem balance_modify : (ledger.modify addr change).balance other =
      if other = addr then (change (ledger.entry addr)).balance
      else ledger.balance other := by
  by_cases same : other = addr <;> simp [balance, modify_apply, same]

theorem nonce_modify : (ledger.modify addr change).nonce other =
      if other = addr then (change (ledger.entry addr)).nonce
      else ledger.nonce other := by
  by_cases same : other = addr <;> simp [nonce, modify_apply, same]

theorem exists_modify :
    (ledger.modify addr change).Exists other ↔ other = addr ∨ ledger.Exists other := by
  by_cases same : other = addr <;> simp [Exists, modify_apply, same]

theorem total_modify : (ledger.modify addr change).total =
      ledger.total + ((change (ledger.entry addr)).balance - ledger.balance addr) := by
  have changed : (ledger.modify addr change).balance =
      Function.update ledger.balance addr (change (ledger.entry addr)).balance := by
    funext other
    simp [balance_modify, Function.update_apply]
  have split := Finset.add_sum_erase Finset.univ ledger.balance (Finset.mem_univ addr)
  rw [total, changed, Finset.sum_update_of_mem (Finset.mem_univ addr), total, ← split,
    Finset.sdiff_singleton_eq_erase]
  omega

variable (amount : Int)

theorem balance_addBalance : (ledger.addBalance addr amount).balance other =
      if other = addr then (ledger.entry addr).balance + amount
      else ledger.balance other :=
  balance_modify ledger addr other _

theorem exists_addBalance : (ledger.addBalance addr amount).Exists other ↔
      other = addr ∨ ledger.Exists other :=
  exists_modify ledger addr other _

theorem total_addBalance : (ledger.addBalance addr amount).total =
      ledger.total + ((ledger.entry addr).balance + amount - ledger.balance addr) :=
  total_modify ledger addr _

theorem modify_eq_self {change : Account → Account} (here : ledger.Exists addr)
    (kept : change (ledger.entry addr) = ledger.entry addr) :
    ledger.modify addr change = ledger := by
  rcases Option.isSome_iff_exists.mp here with ⟨_, found⟩
  rw [ledger.entry_of_some addr found] at kept
  rw [modify, Function.update_eq_self_iff, found]
  exact congrArg some kept

theorem addBalance_zero (here : ledger.Exists addr) : ledger.addBalance addr 0 = ledger :=
  modify_eq_self ledger addr here (by simp)

end Ledger

open OperationDB Ledger

section

variable [Crypto]

def canTransfer (db : OperationDB) (address : Address) (amount : Int) : Bool × OperationDB :=
  let (balance, db) := db.getBalance address
  (amount ≤ balance, db)

def transfer (db : OperationDB) (sender recipient : Address) (amount : Int) : OperationDB :=
  let db := db.subBalance sender amount
  let db := db.addBalance recipient amount
  (db.getOrNewOperationObject recipient).2

variable (db : OperationDB) (sender recipient : Address) (amount : Int)

@[simp]
theorem canTransfer_fst :
    (canTransfer db sender amount).1 = decide (amount ≤ db.ledger.balance sender) := by
  simp [canTransfer]

@[simp]
theorem ledger_canTransfer : (canTransfer db sender amount).2.ledger = db.ledger := by
  simp [canTransfer]

theorem ledger_transfer :
    (transfer db sender recipient amount).ledger = db.ledger.transfer sender recipient amount := by
  have moved : ((db.subBalance sender amount).addBalance recipient amount).ledger =
      db.ledger.transfer sender recipient amount := by
    rw [ledger_addBalance, ledger_subBalance, Ledger.transfer]
  refine (((db.subBalance sender amount).addBalance recipient
    amount).getOrNewOperationObject_spec recipient rfl).2.2.1.trans ?_
  rw [moved]
  refine touch_of_exists ?_
  exact (exists_addBalance _ recipient recipient amount).mpr (.inl rfl)

/-- What a transfer between two accounts is to do to the balances. -/
structure TransferConserves (before after : OperationDB) (sender recipient : Address)
    (amount : Int) : Prop where
  total : ∑ address, (after.getBalance address).1 = ∑ address, (before.getBalance address).1
  sender_pays : sender ≠ recipient →
    (after.getBalance sender).1 = (before.getBalance sender).1 - amount
  recipient_gets : sender ≠ recipient →
    (after.getBalance recipient).1 = (before.getBalance recipient).1 + amount
  to_self : sender = recipient → (after.getBalance sender).1 = (before.getBalance sender).1
  others : ∀ other, other ≠ sender → other ≠ recipient →
    (after.getBalance other).1 = (before.getBalance other).1

namespace Ledger

variable (ledger : Ledger)

theorem balance_transfer_of_ne {other : Address} (notSender : other ≠ sender)
    (notRecipient : other ≠ recipient) :
    (ledger.transfer sender recipient amount).balance other = ledger.balance other := by
  simp [transfer, balance_addBalance, notSender, notRecipient]

theorem balance_transfer_sender (different : sender ≠ recipient) :
    (ledger.transfer sender recipient amount).balance sender =
      (ledger.entry sender).balance - amount := by
  rw [transfer, balance_addBalance, if_neg different, balance_addBalance, if_pos rfl]
  omega

theorem balance_transfer_recipient (different : sender ≠ recipient) :
    (ledger.transfer sender recipient amount).balance recipient =
      (ledger.entry recipient).balance + amount := by
  have unchanged : (ledger.addBalance sender (-amount)).entry recipient =
      ledger.entry recipient := by
    simp [entry, addBalance, modify_apply, different.symm]
  rw [transfer, balance_addBalance, if_pos rfl, unchanged]

theorem balance_transfer_self :
    (ledger.transfer sender sender amount).balance sender = (ledger.entry sender).balance := by
  have paid : ((ledger.addBalance sender (-amount)).entry sender).balance =
      (ledger.entry sender).balance - amount := by
    simp [entry, addBalance, modify_apply, sub_eq_add_neg]
  rw [transfer, balance_addBalance, if_pos rfl, paid]
  omega

theorem total_transfer : (ledger.transfer sender recipient amount).total =
      ledger.total + ((ledger.entry sender).balance - ledger.balance sender) +
        (if sender = recipient then 0
          else (ledger.entry recipient).balance - ledger.balance recipient) := by
  by_cases same : sender = recipient
  · subst same
    have paid : ((ledger.addBalance sender (-amount)).entry sender).balance =
        (ledger.entry sender).balance - amount := by
      simp [entry, addBalance, modify_apply, sub_eq_add_neg]
    rw [transfer, total_addBalance, total_addBalance, paid, balance_addBalance, if_pos rfl,
      if_pos rfl]
    omega
  · have unchanged : (ledger.addBalance sender (-amount)).entry recipient =
        ledger.entry recipient := by
      simp [entry, addBalance, modify_apply, Ne.symm same]
    rw [transfer, total_addBalance, total_addBalance, unchanged, balance_addBalance,
      if_neg (Ne.symm same), if_neg same]
    omega

end Ledger

namespace TransferConserves

variable {db sender recipient amount}

theorem iff_ledger :
    TransferConserves db (transfer db sender recipient amount) sender recipient amount ↔
      (db.ledger.transfer sender recipient amount).total = db.ledger.total ∧
        (sender ≠ recipient →
          (db.ledger.entry sender).balance = db.ledger.balance sender ∧
            (db.ledger.entry recipient).balance = db.ledger.balance recipient) ∧
        (sender = recipient →
          (db.ledger.entry sender).balance = db.ledger.balance sender) := by
  constructor
  · rintro ⟨total, senderPays, recipientGets, toSelf, -⟩
    simp only [getBalance_fst, ledger_transfer] at total senderPays recipientGets toSelf
    refine ⟨total, fun different => ?_, fun same => ?_⟩
    · have paid := senderPays different
      have got := recipientGets different
      rw [balance_transfer_sender _ _ _ _ different] at paid
      rw [balance_transfer_recipient _ _ _ _ different] at got
      exact ⟨by omega, by omega⟩
    · have kept := toSelf same
      subst same
      rwa [balance_transfer_self] at kept
  · rintro ⟨total, apart, self⟩
    refine ⟨?_, fun different => ?_, fun different => ?_, fun same => ?_, ?_⟩
    · simpa only [getBalance_fst, ledger_transfer, Ledger.total] using total
    · rw [getBalance_fst, getBalance_fst, ledger_transfer,
        balance_transfer_sender _ _ _ _ different, (apart different).1]
    · rw [getBalance_fst, getBalance_fst, ledger_transfer,
        balance_transfer_recipient _ _ _ _ different, (apart different).2]
    · rw [getBalance_fst, getBalance_fst, ledger_transfer, ← same,
        balance_transfer_self, self same]
    · intro _ notSender notRecipient
      rw [getBalance_fst, getBalance_fst, ledger_transfer,
        balance_transfer_of_ne _ _ _ _ notSender notRecipient]

end TransferConserves

theorem Ledger.exists_iff_balance_entry (ledger : Ledger) (addr : Address) :
    ledger.Exists addr ↔ (ledger.entry addr).balance = ledger.balance addr := by
  constructor
  · exact ledger.balance_entry addr
  · intro _
    by_contra absent
    have added := ledger.balance_entry_of_absent addr absent
    omega

/-- A transfer conserves value exactly when both accounts exist before it. -/
theorem transfer_conserves_iff_exist :
    TransferConserves db (transfer db sender recipient amount) sender recipient amount ↔
      (db.exist sender).1 = true ∧ (db.exist recipient).1 = true := by
  rw [TransferConserves.iff_ledger, OperationDB.exist_fst, OperationDB.exist_fst]
  change _ ↔ db.ledger.Exists sender ∧ db.ledger.Exists recipient
  rw [Ledger.exists_iff_balance_entry, Ledger.exists_iff_balance_entry]
  constructor
  · rintro ⟨-, apart, self⟩
    by_cases same : sender = recipient
    · subst same
      exact ⟨self rfl, self rfl⟩
    · exact apart same
  · rintro ⟨senderKept, recipientKept⟩
    rw [Ledger.total_transfer, senderKept, recipientKept]
    simp

end

attribute [local instance] sampleCrypto

def soleAccountDB : OperationDB where
  database := {}
  originalRoot := 1
  trie := fun address =>
    if address = 0x11 then some (.holding 10)
    else none

/-- Sending five to an address without an account leaves it with 200000005. -/
theorem transfer_to_absent_not_conserves :
    (soleAccountDB.exist 0x11).1 = true ∧ (soleAccountDB.exist 0x22).1 = false ∧
      ¬ TransferConserves soleAccountDB (transfer soleAccountDB 0x11 0x22 5) 0x11 0x22 5 := by
  refine ⟨by decide, by decide, fun conserves => ?_⟩
  have got := conserves.recipient_gets (by decide)
  revert got
  decide

end Octopus
