import Octopus.OperationDB.Settlement
import Octopus.Transition.Runs

/-!
# States that were not settled yet

Between the opening of a state and its `IntermediateRoot` nothing is pending, no account is
marked as deleted, and an account that the journal does not call dirty still has the
balance of its record and is not marked as suicided.
-/

namespace Octopus

open Option

variable {new : OperationDB} {msg : Message} {entry : JournalEntry} {fuel : Nat} {ovm : OVM}

/-- What an object has in common with the record of its account as long as the
journal does not call it dirty. -/
def OperationObject.Mirrors (object : OperationObject) (record : Option StateAccount) : Prop :=
  object.suicided = false ∧ ∃ data, record = some data ∧ object.data.balance = data.balance

theorem OperationObject.Mirrors.of_sameMarks {obj changed : OperationObject}
    {record : Option StateAccount} (mirrors : obj.Mirrors record)
    (marks : obj.SameMarks changed) (balance : changed.data.balance = obj.data.balance) :
    changed.Mirrors record := by
  rcases mirrors with ⟨alive, data, stored, same⟩
  exact ⟨marks.suicided.trans alive, data, stored, balance.trans same⟩

namespace OperationDB

structure Unsettled (db : OperationDB) : Prop where
  pending : db.pending = []
  cached : ∀ address ∈ db.journal.dirties, (db.objects address).isSome = true
  alive : ∀ address object, db.objects address = some object → object.deleted = false
  mirrors : ∀ address object, db.objects address = some object →
    address ∉ db.journal.dirties → object.Mirrors (db.trie address)

theorem unsettled_of_newOperationDb {root : Hash} {disk : Database} {db : OperationDB}
    (opened : newOperationDb root disk = some db) : db.Unsettled := by
  rcases map_eq_some_iff.mp opened with ⟨_, -, rfl⟩
  refine ⟨rfl, ?_, ?_, ?_⟩
  · intro addr dirty
    exact absurd dirty (AList.notMem_empty addr)
  · intro addr obj cached
    cases cached
  · intro addr obj cached
    cases cached

namespace Unsettled

variable {db : OperationDB} {addr : Address} {obj changed : OperationObject}

section

variable (unsettled : db.Unsettled)
include unsettled

theorem found (found : db.find addr = some obj) :
    obj.deleted = false ∧ (addr ∉ db.journal.dirties → obj.Mirrors (db.trie addr)) := by
  rcases cached : db.objects addr with _ | other
  · rcases stored : db.trie addr with _ | data
    · simp [find, cached, stored] at found
    · simp only [find, cached, stored, map_some, none_or, some.injEq] at found
      subst found
      exact ⟨rfl, fun _ => ⟨rfl, data, rfl, rfl⟩⟩
  · simp only [find, cached, some_or, some.injEq] at found
    subst found
    refine ⟨unsettled.alive addr other cached, fun clean => ?_⟩
    exact unsettled.mirrors addr other cached clean

theorem store {journal : Journal}
    (marked : ∀ other ∈ journal.dirties, other = addr ∨ other ∈ db.journal.dirties)
    (grows : ∀ other ∈ db.journal.dirties, other ∈ journal.dirties) (alive : obj.deleted = false)
    (mirrors : addr ∉ journal.dirties → obj.Mirrors (db.trie addr)) :
    ({ db with journal := journal }.setOperationObject addr obj).Unsettled := by
  have stored : ∀ other,
      ({ db with journal := journal }.setOperationObject addr obj).objects other =
        if other = addr then some obj else db.objects other := by
    simp [OperationDB.setOperationObject, Function.update_apply]
  refine ⟨unsettled.pending, ?_, ?_, ?_⟩
  · intro other dirty
    rw [stored]
    split
    · rfl
    · next apart =>
      rcases marked other dirty with here | old
      · exact absurd here apart
      · exact unsettled.cached other old
  · intro other cached here
    rw [stored] at here
    split at here
    · cases here
      exact alive
    · exact unsettled.alive other cached here
  · intro other cached here clean
    rw [stored] at here
    split at here
    · next same =>
      subst same
      cases here
      exact mirrors clean
    · exact unsettled.mirrors other cached here fun dirty => clean (grows other dirty)

theorem setOperationObject (alive : obj.deleted = false)
    (mirrors : addr ∉ db.journal.dirties → obj.Mirrors (db.trie addr)) :
    (db.setOperationObject addr obj).Unsettled :=
  unsettled.store (fun _ => .inr) (fun _ dirty => dirty) alive mirrors

theorem record (marked : entry.dirtied = some addr) (alive : obj.deleted = false) :
    (db.record entry addr obj).Unsettled := by
  apply unsettled.store
  · intro _ dirty
    rcases Journal.mem_dirties_append.mp dirty with here | old
    · exact .inl (some.inj (here.symm.trans marked))
    · exact .inr old
  · exact fun _ dirty => Journal.mem_dirties_append.mpr (.inr dirty)
  · exact alive
  · exact fun clean => absurd (Journal.mem_dirties_append.mpr (.inl marked)) clean

theorem recordUnmarked (unmarked : entry.dirtied = none) (alive : obj.deleted = false)
    (mirrors : addr ∉ db.journal.dirties → obj.Mirrors (db.trie addr)) :
    (db.record entry addr obj).Unsettled := by
  have same : (db.journal.append entry).dirties = db.journal.dirties := by
    simp [Journal.append, unmarked]
  apply unsettled.store
  · intro other dirty
    exact .inr (same ▸ dirty)
  · intro other dirty
    exact same ▸ dirty
  · exact alive
  · exact fun clean => mirrors (same ▸ clean)

theorem putBack (found : db.find addr = some obj) (marks : obj.SameMarks changed)
    (balance : changed.data.balance = obj.data.balance) :
    (db.setOperationObject addr changed).Unsettled := by
  rcases unsettled.found found with ⟨alive, mirrors⟩
  exact unsettled.setOperationObject (marks.deleted.trans alive) fun clean =>
    (mirrors clean).of_sameMarks marks balance

theorem looked {found : Option OperationObject}
    (read : db.getOperationObject addr = (found, new)) : new.Unsettled ∧ new.find addr = found := by
  rcases of_getOperationObject read with ⟨first, same, -⟩
  refine ⟨?_, by rw [same, first]⟩
  unfold OperationDB.getOperationObject at read
  split at read
  · cases read
    exact unsettled
  · split at read
    · cases read
      exact unsettled
    · next data stored =>
      cases read
      exact unsettled.setOperationObject rfl fun _ => stored ▸ ⟨rfl, data, rfl, rfl⟩

theorem suicide (addr : Address) : (db.suicide addr).2.Unsettled := by
  rcases read : db.getOperationObject addr with ⟨_ | _, _⟩
  all_goals
    rcases unsettled.looked read with ⟨kept, found⟩
    simp only [OperationDB.suicide, read]
  · exact kept
  · exact kept.record rfl (kept.found found).1

end

variable [Crypto]

section

variable (unsettled : db.Unsettled)
include unsettled

section

variable (addr : Address)

theorem getOrNewOperationObject :
    ∃ obj new, db.getOrNewOperationObject addr = (obj, new) ∧
      new.Unsettled ∧ new.find addr = some obj := by
  rcases read : db.getOrNewOperationObject addr with ⟨_, _⟩
  rcases of_getOrNewOperationObject read with looked | ⟨-, rfl, rfl⟩
  · exact ⟨_, _, rfl, unsettled.looked looked⟩
  · exact ⟨_, _, rfl, unsettled.record rfl rfl, by simp [OperationDB.record]⟩

theorem addBalance (amount : Int) : (db.addBalance addr amount).Unsettled := by
  rcases unsettled.getOrNewOperationObject addr with ⟨_, _, looked, kept, found⟩
  simp only [OperationDB.addBalance, looked]
  split
  · exact kept
  · exact kept.record rfl (kept.found found).1

theorem subBalance (amount : Int) : (db.subBalance addr amount).Unsettled := by
  rw [subBalance_eq_addBalance]
  exact unsettled.addBalance addr (-amount)

theorem setNonce (nonce : Nat) : (db.setNonce addr nonce).Unsettled := by
  rcases unsettled.getOrNewOperationObject addr with ⟨_, _, looked, kept, found⟩
  simp only [OperationDB.setNonce, looked]
  exact kept.record rfl (kept.found found).1

theorem setCode (code : Bytes) : (db.setCode addr code).Unsettled := by
  rcases unsettled.getOrNewOperationObject addr with ⟨obj, new, looked, kept, found⟩
  simp only [OperationDB.setCode, looked]
  apply kept.record rfl
  exact (obj.sameMarks_getCode new.database).deleted.trans (kept.found found).1

theorem setState (key value : Hash) : (db.setState addr key value).Unsettled := by
  rcases unsettled.getOrNewOperationObject addr with ⟨obj, new, looked, kept, found⟩
  have marks := obj.sameMarks_getState new.database key
  have account := obj.account_getState new.database key
  simp only [OperationDB.setState, looked]
  split
  · exact kept.putBack found ⟨rfl, rfl⟩ rfl
  · split
    · exact kept.putBack found marks (congrArg Account.balance account)
    · exact kept.record rfl (marks.deleted.trans (kept.found found).1)

/-- A creation over an existing account is not marked by the journal, but it
keeps the balance. -/
theorem createAccount : (db.createAccount addr).Unsettled := by
  rcases db.createAccount_cases addr with ⟨-, same⟩ | ⟨_, _, read, same⟩
  · rw [same]
    exact unsettled.record rfl rfl
  rcases unsettled.looked read with ⟨kept, found⟩
  rw [same]
  apply kept.recordUnmarked rfl rfl
  intro clean
  rcases (kept.found found).2 clean with ⟨-, data, stored, balance⟩
  exact ⟨rfl, data, stored, balance⟩

end

theorem readObject {Value : Type} {absent : Value}
    {read : OperationObject → Database → Value × OperationObject} (caches : ∀ obj disk,
      (read obj disk).2.account disk = obj.account disk)
    (marks : ∀ (obj : OperationObject) disk, obj.SameMarks (read obj disk).2) :
    (db.readObject addr absent read).2.Unsettled := by
  rcases looked : db.getOperationObject addr with ⟨_ | obj, new⟩
  all_goals
    rcases unsettled.looked looked with ⟨kept, found⟩
    simp only [OperationDB.readObject, looked]
  · exact kept
  · exact kept.putBack found (marks obj new.database)
      (congrArg Account.balance (caches obj new.database))

theorem perform (effect : Effect) : (effect.perform db).Unsettled := by
  cases effect with
  | transfer sender recipient amount =>
    have moved := (unsettled.subBalance sender amount).addBalance recipient amount
    rcases moved.getOrNewOperationObject recipient with ⟨_, _, looked, kept, -⟩
    rw [Effect.perform, transfer, looked]
    exact kept
  | bumpNonce addr => exact unsettled.setNonce addr _
  | openAccount addr => exact unsettled.createAccount addr
  | startNonce addr => exact unsettled.setNonce addr 1
  | setCode addr code => exact unsettled.setCode addr code
  | setState addr key value => exact unsettled.setState addr key value
  | selfdestruct addr beneficiary =>
    have looked : (db.getBalance addr).2.Unsettled :=
      unsettled.readObject (fun _ _ => rfl) fun _ _ => ⟨rfl, rfl⟩
    exact (looked.addBalance beneficiary _).suicide addr

theorem trace {policy : Policy} (trace : Trace policy db new) : new.Unsettled := by
  induction trace with
  | refl => exact unsettled
  | tail _ step ih =>
    cases step with
    | read _ _ _ caches marks => exact ih.readObject caches marks
    | note same =>
      refine ⟨same.pending.trans ih.pending, ?_, ?_, ?_⟩
      · rw [same.objects, same.dirties]
        exact ih.cached
      · rw [same.objects]
        exact ih.alive
      · rw [same.objects, same.trie, same.dirties]
        exact ih.mirrors
    | effect effect _ => exact ih.perform effect

theorem purchases (purchases : msg.Purchases db new) : new.Unsettled := by
  rcases purchases with ⟨_, looked, paid⟩
  exact ((unsettled.trace looked).subBalance msg.sender msg.purchase).trace paid

end

theorem execute {gas : Nat} {old new : World} {result : CallResult}
    (unsettled : old.db.Unsettled)
    (returned : execute ovm (ovm.run fuel) msg gas old = .ok (result, new)) : new.db.Unsettled := by
  rcases execute_cases returned with
    ⟨-, ready, created, quiet, ran⟩ | ⟨recipient, ready, -, ⟨read, quiet, bumped⟩, ran⟩
  · have start := unsettled.trace quiet
    exact start.trace (OVM.create_traced ran (ovm.run_traced fuel)
      fun _ => Policy.fresh_admitsCreation msg.value)
  · have start : ready.db.Unsettled := by
      rw [bumped]
      exact (unsettled.trace quiet).setNonce msg.sender _
    exact start.trace (OVM.call_traced (ovm.run_traced fuel) (fun _ => trivial) ran)

theorem applyMessage {old new : TransitionState}
    {outcome : Except TransitionError ExecutionResult} (unsettled : old.db.Unsettled)
    (returned : applyMessage ovm (ovm.run fuel) msg old = .ok (outcome, new)) :
    new.db.Unsettled := by
  rcases applyMessage_cases returned with ⟨-, -, quiet, -⟩ | ⟨-, -, -, purchases, -⟩ |
      ⟨-, -, gas, frame, world, -, -, ran, -, rfl⟩
  · exact unsettled.trace quiet
  · exact unsettled.purchases purchases
  · exact (unsettled.purchases (msg.purchases_startDB old.db)).execute ran

end Unsettled

end OperationDB

end Octopus
