import Octopus.OperationDB.Flush
import Octopus.OperationDB.Operations

/-!
# What can be observed of a state

Two states are told apart by their getters and by `IntermediateRoot`.  What the getters of
one account return is the face of its object.  Accounts that are listed as pending or dirty
are cached, so `IntermediateRoot` and `Copy` do not meet a missing object.
-/

namespace Octopus

open Library Option

variable {delete : Bool} {codes : List (Hash × Bytes)} {addresses : List Address}
  {root : Hash}

@[ext]
structure Face where
  balance : Int
  nonce : Nat
  code : Bytes
  state : Hash → Hash
  committed : Hash → Hash
  suicided : Bool

namespace OperationDB

structure Listed (db : OperationDB) : Prop where
  distinct : db.pending.Nodup
  cached : ∀ address, address ∈ db.pending ∨ address ∈ db.dirty → (db.objects address).isSome

variable {db copied : OperationDB}

def Copied (db : OperationDB) (address : Address) : Prop :=
  address ∈ db.journaled ∨ address ∈ db.pending ∨ address ∈ db.dirty

instance (db : OperationDB) (address : Address) : Decidable (db.Copied address) :=
  inferInstanceAs (Decidable (_ ∨ _ ∨ _))

theorem copyLoop_eq (objects : Address → Option OperationObject)
    (cached : ∀ addr ∈ addresses, (db.objects addr).isSome) :
    ∃ next, addresses.foldlM db.copyObject objects = .ok next ∧
      ∀ addr, next addr = if addr ∈ addresses then
        (objects addr).or ((db.objects addr).map OperationObject.deepCopy)
      else objects addr := by
  induction addresses generalizing objects with
  | nil => exact ⟨objects, rfl, by simp⟩
  | cons first rest ih =>
    have later : ∀ addr ∈ rest, (db.objects addr).isSome :=
      fun addr mem => cached addr (List.mem_cons_of_mem _ mem)
    rcases isSome_iff_exists.mp (cached first List.mem_cons_self) with ⟨obj, found⟩
    have stepped : ∃ mid, db.copyObject objects first = .ok mid ∧
        mid = Function.update objects first ((objects first).or (some obj.deepCopy)) := by
      rcases here : objects first with _ | copy
      · refine ⟨Function.update objects first (some obj.deepCopy), ?_, ?_⟩
        · simp only [copyObject, here, found]
        · rw [none_or]
      · refine ⟨objects, by simp only [copyObject, here], ?_⟩
        rw [some_or, ← here, Function.update_eq_self]
    rcases stepped with ⟨mid, taken, rfl⟩
    rcases ih _ later with ⟨next, looped, final⟩
    refine ⟨next, ?_, ?_⟩
    · rw [List.foldlM_cons, taken]
      exact looped
    · intro addr
      rw [final]
      by_cases same : addr = first
      · subst same
        rcases objects addr with _ | copy <;> simp [found]
      · simp [same]

theorem copy_spec (listed : db.Listed) :
    ∃ copied, db.copy = .ok copied ∧ copied.database = db.database ∧ copied.trie = db.trie ∧
      copied.pending = db.journaled ∪ db.pending ∧ copied.dirty = db.journaled ∪ db.dirty ∧
      copied.refund = 0 ∧ copied.logs = db.logs ∧ copied.accessList = db.accessList ∧
      copied.journal = {} ∧
      ∀ addr, copied.objects addr = if db.Copied addr then
        (db.objects addr).map OperationObject.deepCopy else none := by
  rcases copyLoop_eq db.journaledObjects
    (fun addr mem => listed.cached addr (.inl mem)) with ⟨mid, first, atMiddle⟩
  rcases copyLoop_eq mid
    (fun addr mem => listed.cached addr (.inr mem)) with ⟨last, second, atLast⟩
  have ran : db.copy = .ok
      { database := db.database
        originalRoot := 0
        trie := db.trie
        objects := last
        pending := db.journaled ∪ db.pending
        dirty := db.journaled ∪ db.dirty
        logs := db.logs
        logSize := db.logSize
        accessList := db.accessList } := by
    simp only [copy, first, second, bind, Except.bind]
    rfl
  refine ⟨_, ran, rfl, rfl, rfl, rfl, rfl, rfl, rfl, rfl, ?_⟩
  intro addr
  change last addr = _
  rw [atLast, atMiddle, journaledObjects]
  by_cases journaled : addr ∈ db.journaled <;> by_cases pending : addr ∈ db.pending <;>
    by_cases dirty : addr ∈ db.dirty <;>
    simp [Copied, journaled, pending]

theorem mem_journaled {addr : Address} : addr ∈ db.journaled ↔
    addr ∈ db.journal.dirties ∧ (db.objects addr).isSome := by
  simp [journaled, AList.mem_keys]

theorem Listed.copy (listed : db.Listed) (ran : db.copy = .ok copied) : copied.Listed := by
  rcases copy_spec listed with ⟨other, same, -, -, pending, dirty, -, -, -, -, objects⟩
  cases ran.symm.trans same
  refine ⟨?_, ?_⟩
  · rw [pending]
    exact listed.distinct.union _
  · intro addr mem
    rw [pending, dirty, List.mem_union_iff, List.mem_union_iff] at mem
    have taken : db.Copied addr := by
      rcases mem with (journaled | pending) | journaled | dirty
      · exact .inl journaled
      · exact .inr (.inl pending)
      · exact .inl journaled
      · exact .inr (.inr dirty)
    have cached : (db.objects addr).isSome := by
      rcases taken with journaled | mem
      · exact (mem_journaled.mp journaled).2
      · exact listed.cached addr mem
    rw [objects, if_pos taken]
    simpa using cached

end OperationDB

variable [Crypto]

namespace OperationObject

def face (object : OperationObject) (database : Database) : Face where
  balance := object.data.balance
  nonce := object.data.nonce
  code := object.shownCode database
  state := object.shownState database
  committed := object.shownCommitted database
  suicided := object.suicided

end OperationObject

structure Database.Hashed (database : Database) : Prop where
  accounts : ∀ root trie, database.accountTries root = some trie → Crypto.accountRoot trie = root
  storage : ∀ root trie, database.storageTries root = some trie → Crypto.storageRoot trie = root
  codes : ∀ codeHash code, database.codes codeHash = some code → Crypto.keccak256 code = codeHash

structure Database.CollisionFree (before after : Database) : Prop where
  accounts : Set.InjOn Crypto.accountRoot (held before.accountTries after.accountTries)
  storage : Set.InjOn Crypto.storageRoot (held before.storageTries after.storageTries)
  codes : Set.InjOn Crypto.keccak256 (held before.codes after.codes)

namespace Database.Extends

variable {old new : Database} (extended : old.Extends new)
include extended

theorem hashed (hashed : old.Hashed) : new.Hashed :=
  ⟨extended.accounts.digest_eq hashed.accounts, extended.storage.digest_eq hashed.storage,
    extended.codes.digest_eq hashed.codes⟩

theorem within (hashed : old.Hashed) (free : old.CollisionFree new) : old.Within new :=
  ⟨fun _ _ found => extended.accounts.lookup hashed.accounts free.accounts found,
    fun _ _ found => extended.storage.lookup hashed.storage free.storage found,
    fun _ _ found => extended.codes.lookup hashed.codes free.codes found⟩

end Database.Extends

namespace OperationDB

def face (db : OperationDB) (address : Address) : Option Face :=
  (db.find address).map fun object => object.face db.database

/-- Nothing that can be observed tells the two states apart. -/
structure Observes (first second : OperationDB) : Prop where
  exist : ∀ address, (first.exist address).1 = (second.exist address).1
  balance : ∀ address, (first.getBalance address).1 = (second.getBalance address).1
  nonce : ∀ address, (first.getNonce address).1 = (second.getNonce address).1
  code : ∀ address, (first.getCode address).1 = (second.getCode address).1
  state : ∀ address key, (first.getState address key).1 = (second.getState address key).1
  committed : ∀ address key,
    (first.getCommittedState address key).1 = (second.getCommittedState address key).1
  suicided : ∀ address, (first.hasSuicided address).1 = (second.hasSuicided address).1
  refund : first.refund = second.refund
  logs : ∀ txHash, first.logs txHash = second.logs txHash
  addresses : ∀ address, first.addressInAccessList address = second.addressInAccessList address
  slots : ∀ address slot, first.slotInAccessList address slot = second.slotInAccessList address slot
  root : ∀ deleteEmptyObjects, (first.intermediateRoot deleteEmptyObjects).map Prod.fst =
    (second.intermediateRoot deleteEmptyObjects).map Prod.fst

theorem faces_eq_iff {first second : OperationDB} :
    (∀ addr, first.face addr = second.face addr) ↔
      (∀ addr, (first.exist addr).1 = (second.exist addr).1) ∧
      (∀ addr, (first.getBalance addr).1 = (second.getBalance addr).1) ∧
      (∀ addr, (first.getNonce addr).1 = (second.getNonce addr).1) ∧
      (∀ addr, (first.getCode addr).1 = (second.getCode addr).1) ∧
      (∀ addr key, (first.getState addr key).1 = (second.getState addr key).1) ∧
      (∀ addr key, (first.getCommittedState addr key).1 = (second.getCommittedState addr key).1) ∧
      ∀ addr, (first.hasSuicided addr).1 = (second.hasSuicided addr).1 := by
  have reads : ∀ (db : OperationDB) addr, (db.exist addr).1 = (db.face addr).isSome ∧
      (db.getBalance addr).1 = (db.face addr).elim 0 Face.balance ∧
      (db.getNonce addr).1 = (db.face addr).elim 0 Face.nonce ∧
      (db.getCode addr).1 = (db.face addr).elim [] Face.code ∧
      (∀ key, (db.getState addr key).1 = (db.face addr).elim 0 (Face.state · key)) ∧
      (∀ key, (db.getCommittedState addr key).1 = (db.face addr).elim 0 (Face.committed · key)) ∧
      (db.hasSuicided addr).1 = (db.face addr).elim false Face.suicided := by
    intro db addr
    simp only [exist, getBalance, getNonce, getCode, getState, getCommittedState, hasSuicided,
      readObject_fst_find, face]
    rcases db.find addr with _ | obj <;> simp [OperationObject.face]
  refine ⟨?_, ?_⟩
  · intro same
    refine ⟨?_, ?_, ?_, ?_, ?_, ?_, ?_⟩ <;> intro addr
    · rw [(reads first addr).1, (reads second addr).1, same]
    · rw [(reads first addr).2.1, (reads second addr).2.1, same]
    · rw [(reads first addr).2.2.1, (reads second addr).2.2.1, same]
    · rw [(reads first addr).2.2.2.1, (reads second addr).2.2.2.1, same]
    · intro key
      rw [(reads first addr).2.2.2.2.1, (reads second addr).2.2.2.2.1, same]
    · intro key
      rw [(reads first addr).2.2.2.2.2.1, (reads second addr).2.2.2.2.2.1, same]
    · rw [(reads first addr).2.2.2.2.2.2, (reads second addr).2.2.2.2.2.2, same]
  · rintro ⟨exist, balance, nonce, code, state, committed, suicided⟩ addr
    have exist := exist addr
    have balance := balance addr
    have nonce := nonce addr
    have code := code addr
    have state := state addr
    have committed := committed addr
    have suicided := suicided addr
    rcases reads first addr with ⟨e, b, n, c, s, k, d⟩
    rcases reads second addr with ⟨e', b', n', c', s', k', d'⟩
    rw [e, e'] at exist
    rw [b, b'] at balance
    rw [n, n'] at nonce
    rw [c, c'] at code
    rw [d, d'] at suicided
    simp only [s, s'] at state
    simp only [k, k'] at committed
    rcases shown : first.face addr with _ | face <;>
      rcases other : second.face addr with _ | face' <;>
      simp only [shown, other, isSome_none, isSome_some,
        reduceCtorEq] at exist balance nonce code state committed suicided
    · rfl
    · exact congrArg some (Face.ext balance nonce code (funext state) (funext committed) suicided)

namespace Listed

variable {db new : OperationDB} (listed : db.Listed)
include listed

theorem grows (grown : Grows db new) : new.Listed := by
  refine ⟨?_, ?_⟩
  · rw [grown.pending]
    exact listed.distinct
  · intro addr mem
    rw [grown.pending, grown.dirty] at mem
    exact grown.cached addr (listed.cached addr mem)

theorem finalise (delete : Bool) : (db.finalise delete).Listed := by
  refine ⟨nodup_pending_finalise listed.distinct delete, ?_⟩
  intro addr mem
  have old : (db.objects addr).isSome := by
    rcases mem with pending | dirty
    · rcases (pending_cell_finalise db delete addr).mp pending with early | marked
      · exact listed.cached addr (.inl early)
      · exact marked.2
    · rcases (mem_dirty_finalise db delete addr).mp dirty with early | marked
      · exact listed.cached addr (.inr early)
      · exact marked.2
  rw [objects_finalise]
  split
  · simpa using old
  · exact old

omit listed in
theorem isSome_flush (cell : AccountCell) (delete : Bool) :
    (cell.flush delete).object.isSome = cell.object.isSome := by
  have finalised : (cell.finalise delete).object.isSome = cell.object.isSome := by
    rcases cached : cell.object with _ | obj <;> simp [AccountCell.finalise, cached]
  have loops : ∀ cell : AccountCell, cell.updateRoot.write.object.isSome = cell.object.isSome := by
    rintro ⟨_, _ | obj, _, _, _⟩
    · rfl
    · cases deleted : obj.deleted <;> simp [AccountCell.updateRoot, AccountCell.write, deleted]
  unfold AccountCell.flush
  dsimp only
  split <;> split <;> simp only [loops, finalised]

theorem intermediateRoot_spec (delete : Bool) :
    ∃ new, db.intermediateRoot delete = .ok (Crypto.accountRoot new.trie, new) ∧
      new.pending = [] ∧ LoopFrame (db.finalise delete) new ∧
      ∀ addr, new.objects addr = ((db.cell addr).flush delete).object ∧
        new.trie addr = ((db.cell addr).flush delete).record :=
  OperationDB.intermediateRoot_spec listed.distinct
    (fun addr mem => listed.cached addr (.inl mem)) delete

section

variable (ran : db.intermediateRoot delete = .ok (root, new))
include ran

theorem intermediateRoot : new.Listed := by
  rcases listed.intermediateRoot_spec delete with ⟨mid, rooted, pending, framed, cells⟩
  cases ran.symm.trans rooted
  refine ⟨by simp [pending], ?_⟩
  rintro addr (mem | dirty)
  · simp [pending] at mem
  · rw [framed.dirty] at dirty
    have old := (listed.finalise delete).cached addr (.inr dirty)
    rw [objects_finalise] at old
    rw [(cells addr).1, isSome_flush]
    split at old
    · simpa [cell] using old
    · exact old

theorem extends_intermediateRoot : db.database.Extends new.database := by
  rcases listed.intermediateRoot_spec delete with ⟨_, rooted, -, framed, -⟩
  cases ran.symm.trans rooted
  rw [framed.database, database_finalise]
  exact .refl _

end

theorem commit {result : Except CommitError Hash}
    (ran : db.commit delete = .ok (result, new)) : new.Listed := by
  rcases commit_eq_ok ran with ⟨_, -, -, rfl⟩ | ⟨-, _, _, rooted, outcome⟩
  · exact listed
  have kept := listed.intermediateRoot rooted
  rcases outcome with ⟨_, looped, -⟩ | ⟨_, _, looped, -, rfl⟩
  · exact kept.grows (Edits.commitObjects looped).toGrows
  have stored := kept.grows (Edits.commitObjects looped).toGrows
  refine ⟨stored.distinct, ?_⟩
  rintro addr (mem | mem)
  · exact stored.cached addr (.inl mem)
  · cases mem

end Listed

theorem Reachable.listed {db : OperationDB} (reachable : db.Reachable) : db.Listed := by
  induction reachable with
  | opened opens =>
    simp only [newOperationDb, map_eq_some_iff] at opens
    rcases opens with ⟨_, -, rfl⟩
    exact ⟨List.nodup_nil, by simp⟩
  | read _ _ absent _ caches kept => exact kept.grows (Edits.readObject _ _ absent caches).toGrows
  | write _ _ ran kept => exact kept.grows (.apply ran)
  | setStorage _ _ _ kept => exact kept.grows (Edits.setStorage ..).toGrows
  | prepare _ _ _ kept | shared _ _ kept => exact ⟨kept.distinct, kept.cached⟩
  | finalise _ delete kept => exact kept.finalise delete
  | intermediateRoot _ _ ran kept => exact kept.intermediateRoot ran
  | commit _ _ ran kept => exact kept.commit ran
  | copy _ ran kept => exact kept.copy ran

end OperationDB

end Octopus
