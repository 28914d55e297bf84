import Octopus.VM.Metering
import Octopus.VM.Rollback

/-!
# Read-only runs

A read-only run makes no request that writes.  It leaves the accounts, the suicide marks and
the logs as they were if it calls only accounts that exist: a call moves its value, which
is zero here, between accounts that are created on the way.
-/

namespace Octopus

open Library Library.Computation OperationDB

section

variable [Crypto]

structure Untouched (before after : OperationDB) : Prop where
  exist : ∀ address, (after.exist address).1 = (before.exist address).1
  balance : ∀ address, (after.getBalance address).1 = (before.getBalance address).1
  nonce : ∀ address, (after.getNonce address).1 = (before.getNonce address).1
  code : ∀ address, (after.getCode address).1 = (before.getCode address).1
  state : ∀ address key, (after.getState address key).1 = (before.getState address key).1
  suicided : ∀ address, (after.hasSuicided address).1 = (before.hasSuicided address).1
  logs : after.logs = before.logs

namespace Untouched

variable {old mid new db : OperationDB}

section

variable (db : OperationDB)

theorem refl : Untouched db db :=
  ⟨fun _ => rfl, fun _ => rfl, fun _ => rfl, fun _ => rfl, fun _ _ => rfl, fun _ => rfl, rfl⟩

theorem trans (first : Untouched old mid) (second : Untouched mid new) : Untouched old new where
  exist addr := (second.exist addr).trans (first.exist addr)
  balance addr := (second.balance addr).trans (first.balance addr)
  nonce addr := (second.nonce addr).trans (first.nonce addr)
  code addr := (second.code addr).trans (first.code addr)
  state addr key := (second.state addr key).trans (first.state addr key)
  suicided addr := (second.suicided addr).trans (first.suicided addr)
  logs := second.logs.trans first.logs

theorem of_ledger (ledger : new.ledger = old.ledger)
    (suicided : ∀ addr, (new.hasSuicided addr).1 = (old.hasSuicided addr).1)
    (logs : new.logs = old.logs) : Untouched old new where
  exist addr := by rw [exist_fst, exist_fst, ledger]
  balance addr := by rw [getBalance_fst, getBalance_fst, ledger]
  nonce addr := by rw [getNonce_fst, getNonce_fst, ledger]
  code addr := by rw [getCode_fst, getCode_fst, ledger]
  state addr key := by rw [getState_fst, getState_fst, ledger]
  suicided := suicided
  logs := logs

variable (addr : Address)

theorem getOperationObject : Untouched db (db.getOperationObject addr).2 := by
  have find := db.find_getOperationObject addr
  refine of_ledger (ledger_congr find (db.database_getOperationObject addr)) ?_ ?_
  · intro other
    rw [hasSuicided, readObject_fst_find, hasSuicided, readObject_fst_find, find]
  · rcases db.getOperationObject_snd addr with same | ⟨_, -, same⟩
    · rw [same]
    · rw [same]
      rfl

theorem hasSuicided_readObject {Value : Type} (absent : Value)
    {read : OperationObject → Database → Value × OperationObject}
    (marks : ∀ (obj : OperationObject) database, obj.SameMarks (read obj database).2)
    (other : Address) : ((db.readObject addr absent read).2.hasSuicided other).1 =
      (db.hasSuicided other).1 := by
  have looked := (getOperationObject db addr).suicided other
  rcases isRead : db.getOperationObject addr with ⟨_ | obj, mid⟩
  · simpa only [OperationDB.readObject, isRead] using looked
  rcases of_getOperationObject isRead with ⟨found, same, -⟩
  rw [← same] at found
  rw [isRead] at looked
  have read_eq : (db.readObject addr absent read).2 =
      mid.setOperationObject addr (read obj mid.database).2 := by
    simp [OperationDB.readObject, isRead]
  rw [← looked, read_eq, hasSuicided, hasSuicided, readObject_fst_find, readObject_fst_find,
    find_setOperationObject]
  by_cases same : other = addr
  · subst same
    rw [Function.update_self, found]
    exact (marks obj mid.database).suicided
  · rw [Function.update_of_ne same]

theorem of_quiet (quiet : Quiet old new) (logs : new.logs = old.logs) : Untouched old new := by
  refine of_ledger quiet.ledger_of_quiet (fun addr => ?_) logs
  clear logs
  induction quiet with
  | refl => rfl
  | tail _ step ih =>
    rw [← ih]
    cases step with
    | read other absent _ _ marks => exact hasSuicided_readObject _ other absent marks addr
    | note same =>
      rw [hasSuicided, readObject_fst_find, hasSuicided, readObject_fst_find]
      simp [OperationDB.find, same.objects, same.trie]
    | effect _ impossible => exact impossible.elim

theorem getBalance : Untouched db (db.getBalance addr).2 :=
  of_quiet (Trace.getBalance db addr) (logs_readObject ..)

theorem getCodeHash : Untouched db (db.getCodeHash addr).2 :=
  of_quiet (Trace.getCodeHash db addr) (logs_readObject ..)

theorem getCode : Untouched db (db.getCode addr).2 :=
  of_quiet (Trace.getCode db addr) (logs_readObject ..)

end

theorem getOrNewOperationObject {addr : Address} (here : (db.exist addr).1 = true) :
    Untouched db (db.getOrNewOperationObject addr).2 := by
  have looked := getOperationObject db addr
  rcases read : db.getOperationObject addr with ⟨_ | _, _⟩
  · simp [db.ledger_of_find_none addr (of_getOperationObject read).1] at here
  · simpa only [OperationDB.getOrNewOperationObject, read] using looked

theorem transfer {sender payee : Address} (paysFrom : (db.exist sender).1 = true)
    (paysTo : (db.exist payee).1 = true) : Untouched db (transfer db sender payee 0) := by
  have first : Untouched db (db.subBalance sender 0) := by
    simpa only [subBalance, if_true] using getOrNewOperationObject paysFrom
  have second : Untouched (db.subBalance sender 0)
      ((db.subBalance sender 0).addBalance payee 0) := by
    simpa only [addBalance, if_true] using
      getOrNewOperationObject ((first.exist payee).trans paysTo)
  have both := first.trans second
  exact both.trans (getOrNewOperationObject ((both.exist payee).trans paysTo))

end Untouched

def existing : Guard
  | level, .call caller address _ _ _, world =>
    level.depth > Params.callCreateDepth ||
      ((world.db.exist caller).1 && (world.db.exist address).1)
  | _, _, _ => true

def Regime.readOnly (ovm : OVM) (deepest : Nat) (start : OperationDB) : Regime where
  ovm := ovm
  guard := existing
  analysed _ _ := True
  faulty reason := ∃ message, reason = .panic message
  assumed _ := True
  keeps := Untouched start
  restricted := True
  metered := False
  deepest := deepest

theorem untouched_callEntry {level : Level} {caller addr : Address} {input : Bytes} {gas : Nat}
    {world : World} (passes : existing level (.call caller addr input gas 0) world = true) :
    Untouched world.db
      (OVM.callEntry level (.contract caller) addr input gas ((0 : Word).toNat) world).2.db := by
  unfold OVM.callEntry
  by_cases deep : level.depth > Params.callCreateDepth
  · rw [if_pos deep]
    exact .refl _
  rw [if_neg deep]
  simp only [existing, deep, decide_false, Bool.false_or, Bool.and_eq_true] at passes
  have checked : Untouched world.db (canTransfer world.db addr 20).2 := .getBalance _ addr
  have moved : Untouched world.db (transfer (canTransfer world.db addr 20).2 caller addr 0) :=
    checked.trans (.transfer ((checked.exist caller).trans passes.1)
      ((checked.exist addr).trans passes.2))
  dsimp only
  split
  · exact moved
  · split
    · exact moved.trans (.getCode _ addr)
    · exact moved.trans ((Untouched.getCode _ addr).trans (.getCodeHash _ addr))

theorem readOnly_sound (ovm : OVM) {deepest : Nat} (start : OperationDB)
    (reaches : Params.callCreateDepth ≤ deepest) : (Regime.readOnly ovm deepest start).Sound where
  deepest := reaches
  rejected := ⟨_, rfl⟩
  answered _ _ _ _ _ _ unopened reads _ kept ran := by
    rcases OVM.answer_quiet unopened (reads trivial) ran with ⟨quiet, logs⟩
    exact kept.trans (.of_quiet quiet logs)
  refused _ _ _ _ _ unopened _ failed := (answer_fails unopened failed).1
  called _ _ _ _ _ _ _ passes zero kept := by
    cases zero trivial
    exact kept.trans (untouched_callEntry passes)
  created := .inl trivial
  shared _ _ _ := trivial
  supplied := .inl fun msg => ⟨msg, rfl⟩
  modest := False.elim

namespace OVM

/-- A read-only run whose calls are made between accounts that exist leaves the
state as it is. -/
theorem readOnly_untouched (ovm : OVM) (fuel : Nat) (level : Level) (contract : Contract)
    (input : Bytes) (before : World) (fresh : contract.analysis = none)
    (accepted : ∃ result, ovm.guardedRun existing fuel level contract input true before =
      .ok result) :
    ∀ outcome after, ovm.run fuel level contract input true before = .ok (outcome, after) →
      Untouched before.db after.db := by
  rcases accepted with ⟨⟨result, _⟩, accepted⟩
  intro outcome after returned
  have same := guardedRun_refines existing fuel level contract input true accepted
  rw [same] at returned
  cases returned
  have conducts := conducts_guardedRun
    (readOnly_sound ovm before.db (le_max_left Params.callCreateDepth level.depth)) fuel
  have ran := conducts level contract input true before (le_max_right _ _) fresh False.elim
    (fun _ => by simp [Level.enter]) ⟨fun _ _ _ => trivial, .refl _⟩ fun _ _ => trivial
  exact (ran.returned _ _ accepted).2.keeps

end OVM

end

attribute [local instance] sampleCrypto

def valuelessCode (address : Byte) : Bytes :=
  [0x60, 0, 0x60, 0, 0x60, 0, 0x60, 0, 0x60, 0, 0x60, address, 0x61, 0xff, 0xff, 0xf1, 0x00]

def valuelessWorld (address : Byte) : World where
  db := contractDB (valuelessCode address) 1

theorem existing_call_untouched :
    ∃ outcome after,
      sampleOVM.run 12 {} (sampleContract (valuelessCode 0x22) 1 100000) [] true
          (valuelessWorld 0x22) = .ok (outcome, after) ∧
        Untouched (valuelessWorld 0x22).db after.db := by
  have accepted : returns (fun _ _ => true) (sampleOVM.guardedRun existing 12 {}
      (sampleContract (valuelessCode 0x22) 1 100000) [] true (valuelessWorld 0x22)) = true := by
    decide +kernel
  rcases exists_of_returns accepted with ⟨outcome, after, ran, -⟩
  have returned := OVM.guardedRun_refines existing 12 {} _ [] true ran
  exact ⟨outcome, after, returned, OVM.readOnly_untouched sampleOVM 12 {} _ [] (valuelessWorld 0x22)
    rfl ⟨_, ran⟩ outcome after returned⟩

/-- A read-only call of a missing account, which is created with the balance of a
new account. -/
theorem missing_call_not_untouched :
    ∃ outcome after,
      sampleOVM.run 12 {} (sampleContract (valuelessCode 0x33) 1 100000) [] true
          (valuelessWorld 0x33) = .ok (outcome, after) ∧
        ((valuelessWorld 0x33).db.exist 0x33).1 = false ∧ (after.db.exist 0x33).1 = true ∧
        (after.db.getBalance 0x33).1 = 200000000 ∧
        ¬ Untouched (valuelessWorld 0x33).db after.db := by
  have created : returns (fun _ after => (after.db.exist 0x33).1 &&
      decide ((after.db.getBalance 0x33).1 = 200000000)) (sampleOVM.run 12 {}
        (sampleContract (valuelessCode 0x33) 1 100000) [] true (valuelessWorld 0x33)) = true := by
    decide +kernel
  rcases exists_of_returns created with ⟨outcome, after, ran, checks⟩
  simp only [Bool.and_eq_true, decide_eq_true_eq] at checks
  have missing : ((valuelessWorld 0x33).db.exist 0x33).1 = false := by decide +kernel
  refine ⟨outcome, after, ran, missing, checks.1, checks.2, ?_⟩
  intro untouched
  have same := untouched.exist 0x33
  rw [checks.1, missing] at same
  cases same

end Octopus
