import Octopus.Library.Store
import Octopus.OperationDB.Refinement
import Octopus.OperationDB.Settlement

/-!
# Flushing the layers

A slot is held in the dirty, the pending or the original layer or in the storage trie.
`updateTrie` moves what is dirty or pending to the trie, except for values that agree with
the original layer; a slot that is missing there counts as zero.
-/

namespace Octopus

open Library Crypto List Function Option

variable {obj : OperationObject} {db new : OperationDB} {addresses : List Address}
  {trie : StorageTrie} {root : Hash} {addr other : Address}

namespace OperationObject

def written (object : OperationObject) (key : Hash) : Option Hash :=
  (object.dirtyStorage.lookup key).or (object.pendingStorage.lookup key)

def flushed (object : OperationObject) (trie : StorageTrie) : StorageTrie := fun key =>
  (object.written key).elim (trie key) fun value =>
    if value = (object.originStorage.lookup key).getD 0 then trie key else value

theorem lookup_finalise (obj : OperationObject) (key : Hash) :
    obj.finalise.pendingStorage.lookup key = obj.written key := by
  have pointwise : Pointwise (fun (storage : Storage) key => storage.lookup key) Sigma.fst
      (fun storage (entry : Sigma fun _ : Hash => Hash) => storage.insert entry.1 entry.2)
      fun entry _ => some entry.2 :=
    { hit := fun storage _ => AList.lookup_insert storage
      frame := fun _ _ _ different => AList.lookup_insert_ne different }
  have looked := pointwise.foldl_entries obj.dirtyStorage obj.pendingStorage key
  rw [finalise, written]
  rw [looked]
  rcases obj.dirtyStorage.lookup key with _ | value <;> rfl

theorem lookup_updateSlots (origin pending : Storage) (trie : StorageTrie) (key : Hash) :
    (((pending.entries.foldl (fun state entry => updateSlot state entry.1 entry.2)
        (origin, trie)).1.lookup key),
      (pending.entries.foldl (fun state entry => updateSlot state entry.1 entry.2)
        (origin, trie)).2 key) =
      (pending.lookup key).elim (origin.lookup key, trie key) fun value =>
        if value = (origin.lookup key).getD 0 then (origin.lookup key, trie key)
        else (some value, value) := by
  have pointwise : Pointwise
      (fun (state : Storage × StorageTrie) key => (state.1.lookup key, state.2 key)) Sigma.fst
      (fun state entry => updateSlot state entry.1 entry.2)
      fun (entry : Sigma fun _ : Hash => Hash) cell =>
        if entry.2 = cell.1.getD 0 then cell else (some entry.2, entry.2) :=
    { hit := by
        intro state entry
        by_cases same : entry.2 = (state.1.lookup entry.1).getD 0
        · simp only [updateSlot, if_pos same]
        · simp only [updateSlot, if_neg same, AList.lookup_insert, update_self]
      frame := by
        intro state entry _ different
        by_cases same : entry.2 = (state.1.lookup entry.1).getD 0
        · simp only [updateSlot, if_pos same]
        · simp only [updateSlot, if_neg same, AList.lookup_insert_ne different,
            update_of_ne different] }
  exact pointwise.foldl_entries pending (origin, trie) key

structure Settled (object : OperationObject) : Prop where
  dirty : object.dirtyStorage = ∅
  pending : object.pendingStorage = ∅

section

variable (settled : obj.Settled)
include settled

theorem Settled.written (key : Hash) : obj.written key = none := by
  simp [OperationObject.written, settled.dirty, settled.pending]

theorem Settled.finalise : obj.finalise = obj := by
  rcases obj with
    ⟨data, dbErr, trie, code, origin, pending, dirty, fake, dirtyCode, suicided, deleted⟩
  rcases settled with ⟨rfl, rfl⟩
  rfl

theorem Settled.updateTrie (disk : Database) : obj.updateTrie disk = (obj.trie, obj) := by
  have nothing : obj.pendingStorage.entries = [] := by
    rw [settled.pending]
    rfl
  simp [OperationObject.updateTrie, settled.finalise, if_pos nothing]

end

theorem updateTrie_of_opened (opened : obj.trie = some trie)
    (origins : ∀ key value, obj.originStorage.lookup key = some value → trie key = value)
    (disk : Database) :
    ∃ origin, obj.updateTrie disk = (some (obj.flushed trie),
        { obj with
          dirtyStorage := ∅
          pendingStorage := ∅
          originStorage := origin
          trie := some (obj.flushed trie) }) ∧
      ∀ key value, origin.lookup key = some value → obj.flushed trie key = value := by
  by_cases nothing : obj.finalise.pendingStorage.entries = []
  · have empty : obj.finalise.pendingStorage = ∅ := AList.ext nothing
    have unwritten : ∀ key, obj.written key = none := by
      intro key
      rw [← lookup_finalise, empty]
      rfl
    have same : obj.flushed trie = trie := by
      funext key
      rw [flushed, unwritten, elim_none]
    refine ⟨obj.originStorage, ?_, ?_⟩
    · rw [updateTrie]
      rw [if_pos nothing, same]
      have kept : obj.finalise = { obj with
            pendingStorage := obj.finalise.pendingStorage
            dirtyStorage := ∅ } := rfl
      rw [kept, empty, ← opened]
    · rw [same]
      exact origins
  · have looked := lookup_updateSlots obj.originStorage obj.finalise.pendingStorage trie
    rcases folded : obj.finalise.pendingStorage.entries.foldl
      (fun state entry => updateSlot state entry.1 entry.2) (obj.originStorage, trie) with
      ⟨origin, new⟩
    simp only [folded, lookup_finalise, Prod.ext_iff] at looked
    have flushes : new = obj.flushed trie := by
      funext key
      rw [(looked key).2, flushed]
      rcases obj.written key with _ | value
      · rfl
      · simp only [elim_some]
        split <;> rfl
    refine ⟨origin, ?_, ?_⟩
    · have fetched : obj.finalise.getTrie disk = (trie, obj.finalise) := by
        have still : obj.finalise.trie = some trie := opened
        simp [getTrie, still]
      have remembered : obj.finalise.originStorage = obj.originStorage := rfl
      simp only [updateTrie, if_neg nothing, fetched, remembered, folded, flushes]
      rfl
    · intro key value remembered
      have first := (looked key).1
      rw [remembered] at first
      rw [flushed]
      rcases wrote : obj.written key with _ | fresh
      · rw [wrote] at first
        exact origins key value first.symm
      simp only [wrote, elim_some] at first ⊢
      split at first
      · next same =>
        rw [if_pos same]
        exact origins key value first.symm
      · next different =>
        rw [if_neg different]
        exact (some.inj first).symm

end OperationObject

namespace OperationDB

variable {db : OperationDB} {addr : Address}

theorem storageTries_insertCodes (codes : List (Hash × Bytes)) (disk : Database) :
    (codes.foldl (fun disk code => disk.insertCode code.1 code.2) disk).storageTries =
      disk.storageTries := by
  refine foldlRecOn _ _
    (motive := fun (state : Database) => state.storageTries = disk.storageTries) rfl ?_
  intro state kept code _
  exact kept

end OperationDB

variable [Crypto]

namespace OperationObject

/-- Nothing was written before the trie was opened, the account holds the root of the trie, and
the original layer agrees with the trie. -/
structure Layered (object : OperationObject) : Prop where
  plain : object.fakeStorage = none
  clean : object.dbErr = none
  unopened : object.trie = none → object.Settled ∧ object.originStorage = ∅
  root : ∀ trie, object.trie = some trie → object.data.root = Crypto.storageRoot trie
  origin : ∀ trie, object.trie = some trie → ∀ key value,
    object.originStorage.lookup key = some value → trie key = value

variable {obj : OperationObject}

section

variable (layered : obj.Layered)
include layered

theorem Layered.updateRoot_of_unopened (unopened : obj.trie = none) (disk : Database) :
    obj.updateRoot disk = obj := by
  rw [updateRoot, (layered.unopened unopened).1.updateTrie, unopened]

theorem Layered.updateRoot_of_opened (opened : obj.trie = some trie) (disk : Database) :
    ∃ origin, obj.updateRoot disk =
        { obj with
          data := { obj.data with root := storageRoot (obj.flushed trie) }
          dirtyStorage := ∅
          pendingStorage := ∅
          originStorage := origin
          trie := some (obj.flushed trie) } ∧
      ∀ key value, origin.lookup key = some value → obj.flushed trie key = value := by
  rcases updateTrie_of_opened opened (layered.origin trie opened) disk with
    ⟨origin, updated, agrees⟩
  refine ⟨origin, ?_, agrees⟩
  rw [updateRoot, updated]

theorem Layered.updateRoot_of_settled (settled : obj.Settled) (disk : Database) :
    obj.updateRoot disk = obj := by
  rcases opened : obj.trie with _ | trie
  · exact layered.updateRoot_of_unopened opened disk
  · rw [updateRoot, settled.updateTrie, opened]
    dsimp only
    rw [← layered.root trie opened]

theorem Layered.updateRoot (disk : Database) :
    (obj.updateRoot disk).Layered ∧ (obj.updateRoot disk).Settled := by
  rcases opened : obj.trie with _ | trie
  · rw [layered.updateRoot_of_unopened opened]
    exact ⟨layered, (layered.unopened opened).1⟩
  rcases layered.updateRoot_of_opened opened disk with ⟨_, updated, agrees⟩
  rw [updated]
  refine ⟨?_, rfl, rfl⟩
  refine ⟨layered.plain, layered.clean, ?_, ?_, ?_⟩
  · intro missing
    cases missing
  · intro other same
    cases same
    rfl
  · intro other same
    cases same
    exact agrees

theorem Layered.finalise : obj.finalise.Layered where
  plain := layered.plain
  clean := layered.clean
  unopened unopened := by
    have settled := (layered.unopened unopened).1
    rw [settled.finalise]
    exact layered.unopened unopened
  root := layered.root
  origin := layered.origin

end

def writtenCode (object : OperationObject) : Option (Hash × Bytes) :=
  if object.dirtyCode then object.code.map fun code => (object.data.codeHash, code) else none

def batched (object : OperationObject) : OperationObject :=
  { object with dirtyCode := object.dirtyCode && object.code.isNone }

theorem Layered.batched (layered : obj.Layered) : obj.batched.Layered where
  plain := layered.plain
  clean := layered.clean
  unopened unopened := by
    rcases layered.unopened unopened with ⟨settled, origin⟩
    exact ⟨⟨settled.dirty, settled.pending⟩, origin⟩
  root := layered.root
  origin := layered.origin

end OperationObject

namespace OperationDB

def liveObject (db : OperationDB) (address : Address) : Option OperationObject :=
  (db.objects address).filter fun object => !object.deleted

def writtenTrie (db : OperationDB) (address : Address) : Option StorageTrie :=
  (db.liveObject address).bind OperationObject.trie

def writtenCode (db : OperationDB) (address : Address) : Option (Hash × Bytes) :=
  (db.liveObject address).bind OperationObject.writtenCode

def keepTries (tries : List StorageTrie) (database : Database) : Database :=
  { database with storageTries := keepAll Crypto.storageRoot tries database.storageTries }

def storeObject (db : OperationDB) (address : Address) (object : OperationObject) : OperationDB :=
  { db.setOperationObject address object.batched with
    database := keepTries object.trie.toList db.database }

theorem commitTrie_eq (db : OperationDB) (addr : Address) (layered : obj.Layered)
    (settled : obj.Settled) :
    db.commitTrie addr obj = (.ok (),
      { db.setOperationObject addr obj with
        database := keepTries obj.trie.toList db.database }) := by
  rcases opened : obj.trie with _ | trie
  · simp only [commitTrie, settled.updateTrie, opened]
    rfl
  have same : { obj with data := { obj.data with
      root := storageRoot trie } } = obj := by
    rw [← layered.root trie opened]
  have stored : keepTries (some trie).toList db.database =
      db.database.insertStorageTrie (storageRoot trie) trie := rfl
  simp only [commitTrie, settled.updateTrie, opened, layered.clean]
  rw [stored, ← opened, ← layered.clean, same]

theorem commitObjects_cons (cached : db.objects addr = some obj)
    (live : obj.deleted = false) (layered : obj.Layered) (settled : obj.Settled)
    (rest : List Address) (codes : List (Hash × Bytes)) :
    commitObjects (addr :: rest) codes db =
      commitObjects rest (codes ++ obj.writtenCode.toList) (db.storeObject addr obj) := by
  have batchSettled : obj.batched.Settled := ⟨settled.dirty, settled.pending⟩
  have stored := commitTrie_eq db addr layered.batched batchSettled
  rcases obj with
    ⟨data, dbErr, trie, code, origin, pending, dirty, fake, dirtyCode, suicided, deleted⟩
  subst live
  rcases code with _ | code <;> cases dirtyCode <;>
    simp only [commitObjects, cached, Bool.false_eq_true, if_false, OperationObject.batched,
      OperationObject.writtenCode, map_none, map_some, toList_none, append_nil, isNone_none,
      isNone_some, Bool.and_true, Bool.and_false, if_true] at stored ⊢ <;>
    rw [stored] <;>
    rfl

theorem objects_storeObject (different : other ≠ addr) (obj : OperationObject) :
    (db.storeObject addr obj).objects other = db.objects other :=
  update_of_ne different _ _

theorem liveObject_storeObject (different : other ≠ addr) (obj : OperationObject) :
    (db.storeObject addr obj).liveObject other = db.liveObject other := by
  rw [liveObject, objects_storeObject different, liveObject]

theorem commitObjects_eq (distinct : addresses.Nodup)
    (ready : ∀ addr ∈ addresses, ∃ obj, db.objects addr = some obj ∧
      obj.Layered ∧ obj.Settled) (codes : List (Hash × Bytes)) :
    ∃ last, commitObjects addresses codes db =
        .ok (.ok (codes ++ addresses.filterMap db.writtenCode), last) ∧ last.trie = db.trie ∧
      last.database = keepTries (addresses.filterMap db.writtenTrie) db.database := by
  induction addresses generalizing db codes with
  | nil =>
    refine ⟨db, ?_, rfl, rfl⟩
    simp [commitObjects]
  | cons addr rest ih =>
    rcases ready addr mem_cons_self with ⟨obj, cached, layered, settled⟩
    rcases nodup_cons.mp distinct with ⟨absent, distinct⟩
    have later : ∀ other ∈ rest, ∃ obj, db.objects other = some obj ∧ obj.Layered ∧ obj.Settled :=
      fun other mem => ready other (mem_cons_of_mem _ mem)
    cases deleted : obj.deleted with
    | true =>
      have skipped : db.liveObject addr = none := by simp [liveObject, cached, deleted]
      rcases ih distinct later codes with ⟨last, looped, trie, disk⟩
      refine ⟨last, ?_, trie, ?_⟩
      · simp only [commitObjects, cached, deleted, looped]
        simp [writtenCode, skipped]
      · rw [disk]
        simp [writtenTrie, skipped]
    | false =>
      have live : db.liveObject addr = some obj := by simp [liveObject, cached, deleted]
      have apart : ∀ other ∈ rest, other ≠ addr :=
        fun other mem same => absent (same ▸ mem)
      have ready : ∀ other ∈ rest, ∃ found, (db.storeObject addr obj).objects other = some found ∧
            found.Layered ∧ found.Settled := by
        intro other mem
        rw [objects_storeObject (apart other mem)]
        exact later other mem
      have codesListed : rest.filterMap (db.storeObject addr obj).writtenCode =
          rest.filterMap db.writtenCode := by
        apply filterMap_congr
        intro other mem
        rw [writtenCode, liveObject_storeObject (apart other mem), writtenCode]
      have triesListed : rest.filterMap (db.storeObject addr obj).writtenTrie =
          rest.filterMap db.writtenTrie := by
        apply filterMap_congr
        intro other mem
        rw [writtenTrie, liveObject_storeObject (apart other mem), writtenTrie]
      rcases ih distinct ready (codes ++ obj.writtenCode.toList) with ⟨last, looped, trie, disk⟩
      refine ⟨last, ?_, trie, ?_⟩
      · rw [commitObjects_cons cached deleted layered settled, looped, codesListed]
        rcases written : obj.writtenCode with _ | pair <;> simp [writtenCode, live, written]
      · rw [disk, triesListed]
        rcases opened : obj.trie with _ | trie <;>
          simp [storeObject, writtenTrie, live, opened, keepTries, keepAll]

variable {db : OperationDB} {addr : Address}

theorem mem_dirty_finalise (db : OperationDB) (delete : Bool) (addr : Address) :
    addr ∈ (db.finalise delete).dirty ↔
      addr ∈ db.dirty ∨ addr ∈ db.journal.dirties ∧ (db.objects addr).isSome := by
  have pointwise : Pointwise
      (fun (db : OperationDB) addr => ((db.objects addr).isSome, decide (addr ∈ db.dirty)))
      id (finaliseObject delete) fun _ cell => (cell.1, cell.1 || cell.2) :=
    { hit := by
        intro db addr
        rcases cached : db.objects addr with _ | obj
        · simp [finaliseObject, cached]
        · simp [finaliseObject, cached, setOperationObject]
      frame := by
        intro db addr other different
        have apart : other ≠ addr := different
        rcases cached : db.objects addr with _ | obj
        · simp [finaliseObject, cached]
        · simp [finaliseObject, cached, setOperationObject, apart] }
  have looped := pointwise.foldl_of_nodup db.journal.dirties.keys_nodup db addr
  have kept : (db.finalise delete).dirty =
      (db.journal.dirties.keys.foldl (finaliseObject delete) db).dirty := by
    unfold finalise clearJournalAndRefund
    split <;> rfl
  rw [kept]
  by_cases marked : addr ∈ db.journal.dirties
  · rw [if_pos (AList.mem_keys.mp marked)] at looped
    have listed := (Prod.ext_iff.mp looped).2
    have both : decide (addr ∈ (db.journal.dirties.keys.foldl
        (finaliseObject delete) db).dirty) =
          ((db.objects addr).isSome || decide (addr ∈ db.dirty)) := listed
    simp only [marked]
    rw [← @decide_eq_true_iff (addr ∈ _), both]
    simp [or_comm]
  · rw [if_neg (fun key => marked (AList.mem_keys.mpr key))] at looped
    have listed := (Prod.ext_iff.mp looped).2
    simp only [marked, false_and, or_false]
    exact decide_eq_decide.mp listed

theorem nodup_dirty_finalise (distinct : db.dirty.Nodup) (delete : Bool) :
    (db.finalise delete).dirty.Nodup :=
  finalise_induction (motive := fun state => state.dirty.Nodup) distinct
    (fun _ _ _ kept _ _ _ => kept.insert) fun _ kept => kept

variable (db : OperationDB) (delete : Bool)

theorem database_finalise : (db.finalise delete).database = db.database :=
  finalise_induction (motive := fun state => state.database = db.database) rfl
    (fun _ _ _ kept _ _ _ => kept) fun _ kept => kept

theorem objects_finalise (addr : Address) : (db.finalise delete).objects addr =
      if addr ∈ db.journal.dirties then (db.objects addr).map fun obj => obj.finalised delete
      else db.objects addr := by
  rcases db.cell_finalise delete addr with ⟨_, same⟩
  have kept := congrArg AccountCell.object same
  change (db.finalise delete).objects addr = _ at kept
  rw [kept]
  by_cases marked : addr ∈ db.journal.dirties
  · rcases cached : db.objects addr with _ | obj <;>
      simp [cell, marked, AccountCell.finalise, cached]
  · simp [cell, marked]

theorem dbErr_finalise : (db.finalise delete).dbErr = db.dbErr :=
  finalise_induction (motive := fun state => state.dbErr = db.dbErr) rfl
    (fun _ _ _ kept _ _ _ => kept) fun _ kept => kept

theorem dirties_finalise :
    ∀ addr ∈ (db.finalise delete).journal.dirties, addr ∈ db.journal.dirties :=
  finalise_induction (motive := fun state => ∀ addr ∈ state.journal.dirties,
      addr ∈ db.journal.dirties) (fun _ marked => marked) (fun _ _ _ kept _ _ _ => kept)
    fun _ _ addr marked => absurd marked (AList.notMem_empty addr)

variable {db : OperationDB} {addr : Address}

def stored (db : OperationDB) (root : Hash) : Database :=
  ((db.dirty.filterMap db.writtenCode).foldl
      (fun database code => database.insertCode code.1 code.2)
      (keepTries (db.dirty.filterMap db.writtenTrie) db.database)).insertAccountTrie root db.trie

theorem commit_eq {mid : OperationDB} {delete : Bool} (clean : db.dbErr = none)
    (rooted : db.intermediateRoot delete = .ok (root, mid))
    (distinct : mid.dirty.Nodup) (ready : ∀ addr ∈ mid.dirty, ∃ obj, mid.objects addr = some obj ∧
      obj.Layered ∧ obj.Settled) :
    ∃ new, db.commit delete = .ok (.ok root, new) ∧ new.database = mid.stored root := by
  rcases commitObjects_eq distinct ready [] with ⟨last, looped, trie, disk⟩
  have ran : ∃ new, db.commit delete = .ok (.ok root, new) ∧
      new.database = ((mid.dirty.filterMap mid.writtenCode).foldl
        (fun disk code => disk.insertCode code.1 code.2)
        last.database).insertAccountTrie root last.trie := by
    simp only [commit, clean, rooted, looped, bind, Except.bind]
    exact ⟨_, rfl, rfl⟩
  rcases ran with ⟨new, committed, kept⟩
  refine ⟨new, committed, ?_⟩
  rw [kept, stored, trie, disk]

def reopened (db : OperationDB) (root : Hash) : OperationDB where
  database := db.stored root
  originalRoot := root
  trie := db.trie

theorem newOperationDb_stored (nonzero : root ≠ 0)
    (nonempty : root = emptyRoot → db.trie = fun _ => none) :
    newOperationDb root (db.stored root) = some (db.reopened root) := by
  have opens : (db.stored root).openTrie root = some db.trie := by
    unfold Database.openTrie
    split
    · next special => rw [nonempty (special.resolve_left nonzero)]
    · simp [stored, Database.insertAccountTrie]
  rw [newOperationDb, opens, map_some]
  rfl

@[simp]
theorem storageTries_stored (root : Hash) : (db.stored root).storageTries =
      keepAll storageRoot (db.dirty.filterMap db.writtenTrie) db.database.storageTries :=
  storageTries_insertCodes _ _

theorem codes_insertCodes {codes : List (Hash × Bytes)}
    (hashed : ∀ code ∈ codes, code.1 = keccak256 code.2) (disk : Database) :
    (codes.foldl (fun disk code => disk.insertCode code.1 code.2) disk).codes =
      keepAll keccak256 (codes.map Prod.snd) disk.codes := by
  induction codes generalizing disk with
  | nil => rfl
  | cons code rest ih =>
    have later : ∀ code ∈ rest, code.1 = keccak256 code.2 :=
      fun code mem => hashed code (mem_cons_of_mem _ mem)
    rw [foldl_cons, ih later, hashed code mem_cons_self]
    rfl

theorem codes_stored (root : Hash)
    (hashed : ∀ code ∈ db.dirty.filterMap db.writtenCode, code.1 = keccak256 code.2) :
    (db.stored root).codes =
      keepAll keccak256 ((db.dirty.filterMap db.writtenCode).map Prod.snd)
        db.database.codes :=
  codes_insertCodes hashed _

/-- The addresses that wait for a commit are listed once and are cached, and a property holds of
every account, which is told whether it waits. -/
structure CellsKept (holds : Address → AccountCell → Prop → Prop) (opened db : OperationDB) :
    Prop where
  database : db.database = opened.database
  clean : db.dbErr = none
  pendingDistinct : db.pending.Nodup
  dirtyDistinct : db.dirty.Nodup
  pendingDirty : ∀ address ∈ db.pending, address ∈ db.dirty
  cached : ∀ address, address ∈ db.dirty ∨ address ∈ db.journal.dirties →
    (db.objects address).isSome
  cells : ∀ address, holds address (db.cell address) (address ∈ db.dirty)

namespace CellsKept

variable {holds : Address → AccountCell → Prop → Prop} {opened db mid : OperationDB}
  {addr : Address} {changed : OperationObject} {disk : Database}

omit [Crypto] in
theorem start (opens : newOperationDb root disk = some opened) (loaded : ∀ addr,
      holds addr ⟨opened.database, none, opened.trie addr, false, false⟩ False) :
    CellsKept holds opened opened := by
  rw [newOperationDb, map_eq_some_iff] at opens
  rcases opens with ⟨trie, -, rfl⟩
  refine ⟨rfl, rfl, nodup_nil, nodup_nil, by simp, by simp, ?_⟩
  intro addr
  simpa [cell] using loaded addr

variable (kept : CellsKept holds opened db)
include kept

omit [Crypto] in
theorem setOperationObject
    (holding : holds addr { db.cell addr with object := some changed } (addr ∈ db.dirty)) :
    CellsKept holds opened (db.setOperationObject addr changed) := by
  refine { kept with cached := ?_, cells := ?_ }
  · intro other listed
    by_cases same : other = addr
    · simp [OperationDB.setOperationObject, same]
    · simpa [OperationDB.setOperationObject, same] using kept.cached other listed
  · intro other
    rw [cell_setOperationObject]
    split
    · next same =>
      subst same
      exact holding
    · exact kept.cells other

omit [Crypto] in
theorem record {entry : JournalEntry} (marks : entry.dirtied = some addr)
    (holding : holds addr { db.cell addr with object := some changed, dirtied := true }
      (addr ∈ db.dirty)) : CellsKept holds opened (db.record entry addr changed) := by
  refine { kept with cached := ?_, cells := ?_ }
  · intro other listed
    by_cases same : other = addr
    · simp [OperationDB.record, OperationDB.setOperationObject, same]
    have old : other ∈ db.dirty ∨ other ∈ db.journal.dirties := by
      refine listed.imp_right fun marked => ?_
      rcases Journal.mem_dirties_append.mp marked with named | marked
      · exact absurd (some.inj (named.symm.trans marks)) same
      · exact marked
    simpa [OperationDB.record, OperationDB.setOperationObject, append, same] using
      kept.cached other old
  · intro other
    rw [cell_record marks]
    split
    · next same =>
      subst same
      exact holding
    · exact kept.cells other

omit [Crypto] in
theorem clean_of_uncached (missing : db.objects addr = none) : addr ∉ db.dirty := by
  intro dirty
  simpa [missing] using kept.cached addr (.inl dirty)

omit [Crypto] in
theorem looked {found : Option OperationObject}
    (read : db.getOperationObject addr = (found, mid))
    (holding : ∀ data, db.trie addr = some data → addr ∉ db.dirty →
      holds addr { db.cell addr with object := some (.ofAccount data) } (addr ∈ db.dirty)) :
    CellsKept holds opened mid ∧ mid.objects addr = found := by
  unfold getOperationObject at read
  split at read
  · next obj present =>
    cases read
    exact ⟨kept, present⟩
  · next missing =>
    split at read
    · cases read
      exact ⟨kept, missing⟩
    · next data stored =>
      cases read
      have clean := kept.clean_of_uncached missing
      exact ⟨kept.setOperationObject (holding data stored clean), update_self ..⟩

theorem flush_of_uncached (delete : Bool) (missing : db.objects addr = none) :
    ((db.cell addr).flush delete).object = none ∧
      ((db.cell addr).flush delete).record = db.trie addr := by
  have unmarked : addr ∉ db.journal.dirties := by
    intro marked
    simpa [missing] using kept.cached addr (.inr marked)
  have unpending : addr ∉ db.pending :=
    fun pending => kept.clean_of_uncached missing (kept.pendingDirty addr pending)
  simp [AccountCell.flush, cell, missing, unmarked, unpending]

theorem intermediateRoot (delete : Bool) {flushed : Address → OperationObject → OperationObject}
    (flushes : ∀ addr obj, db.objects addr = some obj →
      ((db.cell addr).flush delete).object = some (flushed addr obj)) :
    ∃ mid, db.intermediateRoot delete = .ok (Crypto.accountRoot mid.trie, mid) ∧
      mid.pending = [] ∧ LoopFrame (db.finalise delete) mid ∧
      (∀ addr, mid.objects addr = (db.objects addr).map (flushed addr)) ∧
      ∀ addr, mid.trie addr = ((db.cell addr).flush delete).record := by
  rcases intermediateRoot_spec kept.pendingDistinct
    (fun addr pending => kept.cached addr (.inl (kept.pendingDirty addr pending)))
    delete with ⟨mid, rooted, pending, framed, cells⟩
  refine ⟨mid, rooted, pending, framed, fun addr => ?_, fun addr => (cells addr).2⟩
  rw [(cells addr).1]
  rcases found : db.objects addr with _ | obj
  · exact (kept.flush_of_uncached delete found).1
  · exact flushes addr obj found

theorem finalise (delete : Bool) (finalised : ∀ addr obj, db.objects addr = some obj →
      addr ∈ db.journal.dirties → ∀ (dirtied : Bool) (dirty : Prop), dirty →
        holds addr ⟨db.database, some (obj.finalised delete), db.trie addr, dirtied, true⟩ dirty) :
    CellsKept holds opened (db.finalise delete) := by
  have dirty := mem_dirty_finalise db delete
  refine ⟨?_, ?_, nodup_pending_finalise kept.pendingDistinct delete,
    nodup_dirty_finalise kept.dirtyDistinct delete, ?_, ?_, ?_⟩
  · rw [database_finalise, kept.database]
  · rw [dbErr_finalise, kept.clean]
  · intro addr pending
    rw [dirty]
    rcases (pending_cell_finalise db delete addr).mp pending with old | marked
    · exact .inl (kept.pendingDirty addr old)
    · exact .inr ⟨of_decide_eq_true marked.1, marked.2⟩
  · intro addr listed
    have old : (db.objects addr).isSome := by
      apply kept.cached
      rcases listed with listed | marked
      · exact ((dirty addr).mp listed).imp_right And.left
      · exact .inr (dirties_finalise db delete addr marked)
    rw [objects_finalise]
    split
    · simpa using old
    · exact old
  · intro addr
    have marks : ((db.finalise delete).cell addr).dirtied = true → addr ∈ db.journal.dirties := by
      intro new
      exact dirties_finalise db delete addr (of_decide_eq_true new)
    rcases db.cell_finalise delete addr with ⟨dirtied, same⟩
    rw [same] at marks ⊢
    by_cases journaled : addr ∈ db.journal.dirties
    · have present := kept.cached addr (.inr journaled)
      rcases isSome_iff_exists.mp present with ⟨obj, cached⟩
      have holding := finalised addr obj cached journaled dirtied _
        ((dirty addr).mpr (.inr ⟨journaled, present⟩))
      simpa [cell, journaled, AccountCell.finalise, cached] using holding
    · have unmarked : dirtied = false := by simpa using fun marked => journaled (marks marked)
      have still : (addr ∈ (db.finalise delete).dirty) = (addr ∈ db.dirty) := by
        rw [dirty, eq_iff_iff]
        exact or_iff_left fun both => journaled both.1
      rw [still]
      simpa [cell, journaled, unmarked] using kept.cells addr

end CellsKept

end OperationDB

end Octopus
