import Octopus.OperationDB.Flush

/-!
# Slots across a commit

The slots read after reopening as before, except where a zero was written over a value of
the storage trie that was never flushed: `updateTrie` compares the zero with the missing
entry of the original layer and takes it for unchanged.
-/

namespace Octopus

open Library Crypto Function Option OperationObject

variable {delete : Bool} {root value : Hash} {disk : Database} {trie : StorageTrie}
  {addr : Address}

section

variable [Crypto]

/-- No two of the storage tries in play have the same root, the empty trie has the known one,
and none has the zero root, which stands for the empty trie as well. -/
structure StorageRoots (tries : Set StorageTrie) : Prop where
  injective : Set.InjOn storageRoot tries
  empty_mem : (fun _ => 0) ∈ tries
  empty : storageRoot (fun _ => 0) = emptyRoot
  ne_zero : ∀ trie ∈ tries, storageRoot trie ≠ 0

namespace StorageRoots

variable {tries : Set StorageTrie} {disk : Database} {trie : StorageTrie}
  (roots : StorageRoots tries)
include roots

theorem openStorageTrie (known : trie ∈ tries)
    (stored : disk.storageTries (storageRoot trie) = some trie) :
    disk.openStorageTrie (storageRoot trie) = some trie := by
  unfold Database.openStorageTrie
  split
  · next special =>
    have same := special.resolve_left (roots.ne_zero trie known)
    rw [roots.injective known roots.empty_mem (same.trans roots.empty.symm)]
  · exact stored

theorem of_openStorageTrie (addressed : Addressed storageRoot tries disk.storageTries)
    (nonzero : root ≠ 0) (opens : disk.openStorageTrie root = some trie) :
    trie ∈ tries ∧ storageRoot trie = root := by
  unfold Database.openStorageTrie at opens
  split at opens
  · next special =>
    cases opens
    exact ⟨roots.empty_mem, roots.empty.trans (special.resolve_left nonzero).symm⟩
  · exact ⟨addressed.mem root trie opens, addressed.digest_eq root trie opens⟩

end StorageRoots

namespace OperationObject

variable {obj : OperationObject} {disk : Database}

/-- What the objects of accounts are that only slots are written of. -/
structure SlotsOnly (database : Database) (object : OperationObject) : Prop where
  layered : object.Layered
  alive : object.deleted = false
  funded : 0 ≤ object.data.balance
  opens : object.trie = none →
    object.data.root ≠ 0 ∧ (database.openStorageTrie object.data.root).isSome

theorem slotsOnly_ofAccount {data : StateAccount} (funded : 0 ≤ data.balance)
    (opens : (disk.openStorageTrie data.root).isSome) : (ofAccount data).SlotsOnly disk where
  layered :=
    { plain := rfl
      clean := rfl
      unopened := fun _ => ⟨⟨rfl, rfl⟩, rfl⟩
      root := by
        intro trie opened
        cases opened
      origin := by
        intro trie opened
        cases opened }
  alive := rfl
  funded := funded
  opens _ := ⟨root_ofAccount_ne_zero data, by rwa [openStorageTrie_ofAccount]⟩

variable {tries : Set StorageTrie} (slots : obj.SlotsOnly disk)
include slots

section

variable (roots : StorageRoots tries) (addressed : Addressed storageRoot tries disk.storageTries)
include roots addressed

theorem SlotsOnly.getTrie :
    ∃ trie, (obj.getTrie disk).2 = { obj with trie := some trie } ∧
      (obj.getTrie disk).2.SlotsOnly disk := by
  rcases opened : obj.trie with _ | trie
  · rcases slots.opens opened with ⟨nonzero, opens⟩
    rcases isSome_iff_exists.mp opens with ⟨trie, opens⟩
    have rooted := (roots.of_openStorageTrie addressed nonzero opens).2
    have fetched : (obj.getTrie disk).2 = { obj with trie := some trie } := by
      simp [OperationObject.getTrie, opened, opens]
    refine ⟨trie, fetched, ?_⟩
    rw [fetched]
    refine ⟨⟨slots.layered.plain, slots.layered.clean, ?_, ?_, ?_⟩, slots.alive, slots.funded, ?_⟩
    · intro missing
      cases missing
    · intro other same
      cases same
      exact rooted.symm
    · intro other same _ _ remembered
      have unwritten := (slots.layered.unopened opened).2
      simp only [unwritten, AList.lookup_empty, reduceCtorEq] at remembered
    · intro missing
      cases missing
  · have fetched : (obj.getTrie disk).2 = obj := by simp [OperationObject.getTrie, opened]
    refine ⟨trie, ?_, ?_⟩
    · rw [fetched, ← opened]
    · rw [fetched]
      exact slots

theorem SlotsOnly.getState (key : Hash) :
    ∃ trie, (obj.getState disk key).2 = { obj with trie := some trie } ∧
      (obj.getState disk key).2.SlotsOnly disk := by
  rcases opened : obj.trie with _ | old
  · rcases slots.layered.unopened opened with ⟨settled, origin⟩
    have looked : (obj.getState disk key).2 = (obj.getTrie disk).2 := by
      simp [OperationObject.getState, getCommittedState, slots.layered.plain, settled.dirty,
        settled.pending, origin]
    rw [looked]
    exact slots.getTrie roots addressed
  have same : (obj.getState disk key).2 = obj := by
    have still : (obj.getTrie disk).2 = obj := by simp [OperationObject.getTrie, opened]
    unfold OperationObject.getState getCommittedState
    grind
  rw [same]
  refine ⟨old, ?_, slots⟩
  rw [← opened]

end

theorem SlotsOnly.setState (opened : obj.trie = some trie) (key value : Hash) :
    (obj.setState key value).SlotsOnly disk where
  layered :=
    { plain := slots.layered.plain
      clean := slots.layered.clean
      unopened := fun missing => absurd (opened.symm.trans missing) (by simp)
      root := slots.layered.root
      origin := slots.layered.origin }
  alive := slots.alive
  funded := slots.funded
  opens missing := absurd (opened.symm.trans missing) (by simp)

theorem SlotsOnly.finalise : obj.finalise.SlotsOnly disk where
  layered := slots.layered.finalise
  alive := slots.alive
  funded := slots.funded
  opens := slots.opens

theorem SlotsOnly.updateRoot : (obj.updateRoot disk).SlotsOnly disk := by
  refine ⟨(slots.layered.updateRoot disk).1, ?_, ?_, ?_⟩
  · rw [deleted_updateRoot, slots.alive]
  · rw [balance_updateRoot]
    exact slots.funded
  · rcases opened : obj.trie with _ | trie
    · rw [slots.layered.updateRoot_of_unopened opened]
      exact slots.opens
    · rcases slots.layered.updateRoot_of_opened opened disk with ⟨_, updated, -⟩
      rw [updated]
      intro missing
      cases missing

end OperationObject

namespace OperationDB

/-- The balances of a freshly opened state can be encoded, and its storage roots opened. -/
structure Readable (db : OperationDB) : Prop where
  funded : ∀ address data, db.trie address = some data → 0 ≤ data.balance
  opens : ∀ address data, db.trie address = some data →
    (db.database.openStorageTrie data.root).isSome

def Spares (db : OperationDB) (deleteEmptyObjects : Bool) : Prop :=
  ∀ address ∈ db.journal.dirties, ∀ object, db.objects address = some object →
    object.doomed deleteEmptyObjects = false

/-- Runs that write slots of existing accounts and destruct none. -/
inductive SlotRun (opened : OperationDB) : OperationDB → Prop where
  | start : SlotRun opened opened
  | getState {db : OperationDB} (earlier : SlotRun opened db) (address : Address) (key : Hash) :
      SlotRun opened (db.getState address key).2
  | setState {db : OperationDB} (earlier : SlotRun opened db) (address : Address)
      (key value : Hash) (present : (db.exist address).1 = true) :
      SlotRun opened (db.setState address key value)
  | finalise {db : OperationDB} (earlier : SlotRun opened db) (deleteEmptyObjects : Bool)
      (spared : db.Spares deleteEmptyObjects) : SlotRun opened (db.finalise deleteEmptyObjects)
  | intermediateRoot {db after : OperationDB} {root : Hash} (earlier : SlotRun opened db)
      (deleteEmptyObjects : Bool) (spared : db.Spares deleteEmptyObjects)
      (returned : db.intermediateRoot deleteEmptyObjects = .ok (root, after)) :
      SlotRun opened after

def Mirrors (record : Option StateAccount) (object : OperationObject) : Prop :=
  ∃ data, record = some data ∧
    OperationObject.ofAccount data = OperationObject.ofAccount object.data

structure SlotsCell (database : Database) (original : Option StateAccount) (cell : AccountCell)
    (dirty : Prop) : Prop where
  untouched : ¬ dirty → cell.record = original
  slots : ∀ object, cell.object = some object → object.SlotsOnly database
  mirrored : ∀ object, cell.object = some object → cell.dirtied = false → cell.pending = false →
    object.Settled ∧ Mirrors cell.record object

def SlotsKept (opened : OperationDB) : OperationDB → Prop :=
  CellsKept (fun address => SlotsCell opened.database (opened.trie address)) opened

namespace SlotsKept

variable {opened db mid : OperationDB} {addr : Address} {obj changed : OperationObject}

theorem start (opens : newOperationDb root disk = some opened) : SlotsKept opened opened :=
  CellsKept.start opens fun _ => ⟨fun _ => rfl, by simp, by simp⟩

section

variable (kept : SlotsKept opened db)
include kept

theorem untouched (clean : addr ∉ db.dirty) : db.trie addr = opened.trie addr :=
  (kept.cells addr).untouched clean

theorem slots (cached : db.objects addr = some obj) : obj.SlotsOnly opened.database :=
  (kept.cells addr).slots obj cached

theorem mirrored (cached : db.objects addr = some obj)
    (unmarked : addr ∉ db.journal.dirties) (unpending : addr ∉ db.pending) :
    obj.Settled ∧ Mirrors (db.trie addr) obj :=
  (kept.cells addr).mirrored obj cached (decide_eq_false unmarked) (decide_eq_false unpending)

theorem setOperationObject (slots : changed.SlotsOnly opened.database)
    (mirrored : addr ∉ db.journal.dirties → addr ∉ db.pending →
      changed.Settled ∧ Mirrors (db.trie addr) changed) :
    SlotsKept opened (db.setOperationObject addr changed) := by
  refine CellsKept.setOperationObject kept ⟨(kept.cells addr).untouched, ?_, ?_⟩
  · rintro _ ⟨⟩
    exact slots
  · rintro _ ⟨⟩ unmarked unpending
    exact mirrored (of_decide_eq_false unmarked) (of_decide_eq_false unpending)

theorem record {entry : JournalEntry} (marks : entry.dirtied = some addr)
    (slots : changed.SlotsOnly opened.database) :
    SlotsKept opened (db.record entry addr changed) := by
  refine CellsKept.record kept marks ⟨(kept.cells addr).untouched, ?_, by simp⟩
  rintro _ ⟨⟩
  exact slots

theorem looked (readable : opened.Readable) {found : Option OperationObject}
    (read : db.getOperationObject addr = (found, mid)) :
    SlotsKept opened mid ∧ mid.objects addr = found := by
  refine CellsKept.looked kept read fun data stored clean => ?_
  have known : opened.trie addr = some data := (kept.untouched clean).symm.trans stored
  refine ⟨(kept.cells addr).untouched, ?_, ?_⟩
  · rintro _ ⟨⟩
    exact slotsOnly_ofAccount (readable.funded addr data known) (readable.opens addr data known)
  · rintro _ ⟨⟩ _ _
    exact ⟨⟨rfl, rfl⟩, data, stored, (ofAccount_ofAccount data).symm⟩

theorem refresh (cached : db.objects addr = some obj)
    (same : changed = { obj with trie := some trie })
    (slots : changed.SlotsOnly opened.database) :
    SlotsKept opened (db.setOperationObject addr changed) := by
  refine kept.setOperationObject slots ?_
  intro unmarked unpending
  rcases kept.mirrored cached unmarked unpending with ⟨settled, mirrors⟩
  subst same
  exact ⟨⟨settled.dirty, settled.pending⟩, mirrors⟩

end

section

variable {tries : Set StorageTrie} (kept : SlotsKept opened db) (readable : opened.Readable)
  (roots : StorageRoots tries)
  (addressed : Addressed storageRoot tries opened.database.storageTries)
include kept readable roots addressed

theorem getState (addr : Address) (key : Hash) : SlotsKept opened (db.getState addr key).2 := by
  rcases read : db.getOperationObject addr with ⟨_ | obj, _⟩
  · simp only [OperationDB.getState, readObject, read]
    exact (kept.looked readable read).1
  rcases kept.looked readable read with ⟨keptMiddle, cached⟩
  have slots := keptMiddle.slots cached
  rcases slots.getState roots addressed key with ⟨_, same, slots⟩
  simp only [OperationDB.getState, readObject, read, keptMiddle.database]
  exact keptMiddle.refresh cached same slots

theorem setState {addr : Address} (here : (db.exist addr).1 = true) (key value : Hash) :
    SlotsKept opened (db.setState addr key value) := by
  rcases read : db.getOperationObject addr with ⟨_ | obj, _⟩
  · have absent : (db.exist addr).1 = false := by simp [exist, readObject, read]
    exact absurd (here.symm.trans absent) (by simp)
  rcases kept.looked readable read with ⟨keptMiddle, cached⟩
  have slots := keptMiddle.slots cached
  rcases slots.getState roots addressed key with ⟨trie, same, read_slots⟩
  have opens : (obj.getState opened.database key).2.trie = some trie := by rw [same]
  simp only [OperationDB.setState, getOrNewOperationObject, read, slots.layered.plain,
    keptMiddle.database]
  split
  · exact keptMiddle.refresh cached same read_slots
  · exact keptMiddle.record rfl (read_slots.setState opens key value)

end

variable (kept : SlotsKept opened db) (spared : db.Spares delete)
include kept spared

theorem finalise : SlotsKept opened (db.finalise delete) := by
  refine CellsKept.finalise kept delete fun addr obj cached marked _ _ dirty => ?_
  refine ⟨absurd dirty, ?_, by simp⟩
  rintro _ ⟨⟩
  rw [finalised, spared addr marked obj cached]
  exact (kept.slots cached).finalise

/-- `IntermediateRoot` on an account: its layers are flushed, and its record is written where it
is marked or pending. -/
theorem flush (cached : db.objects addr = some obj) :
    ((db.cell addr).flush delete).object = some (obj.updateRoot opened.database) ∧
      ((db.cell addr).flush delete).record =
        if addr ∈ db.journal.dirties ∨ addr ∈ db.pending then
          some (obj.updateRoot opened.database).data
        else db.trie addr := by
  have slots := kept.slots cached
  have recorded : ∀ old, (obj.updateRoot opened.database).recorded old =
      some (obj.updateRoot opened.database).data := by
    intro old
    rw [recorded, slots.updateRoot.alive, if_neg (by simp),
      if_neg (by have := slots.updateRoot.funded; omega)]
  -- the first step of `updateTrie` is to finalise
  have early : obj.finalise.updateRoot opened.database = obj.updateRoot opened.database := rfl
  by_cases marked : addr ∈ db.journal.dirties
  · have alive : obj.finalise.deleted = false := slots.alive
    have spares := spared addr marked obj cached
    simp [AccountCell.flush, cell, AccountCell.finalise, AccountCell.updateRoot, AccountCell.write,
      finalised, cached, marked, spares, alive, early, recorded, kept.database]
  by_cases pending : addr ∈ db.pending
  · simp [AccountCell.flush, cell, AccountCell.updateRoot, AccountCell.write, cached, marked,
      pending, slots.alive, recorded, kept.database]
  · have settled := (kept.mirrored cached marked pending).1
    simp [AccountCell.flush, cell, cached, marked, pending,
      slots.layered.updateRoot_of_settled settled]

variable (ran : db.intermediateRoot delete = .ok (root, mid))
include ran

theorem dbErr_intermediateRoot : mid.dbErr = none := by
  let Funded (db : OperationDB) : Prop := db.dbErr = none ∧
    ∀ addr obj, db.objects addr = some obj → 0 ≤ obj.data.balance
  have start : Funded (db.finalise delete) := by
    have new := kept.finalise spared
    exact ⟨new.clean, fun addr obj cached => (new.slots cached).funded⟩
  refine (intermediateRoot_induction (motive := Funded) ran start ?_ ?_ fun _ kept => kept).1
  · rintro state addr obj ⟨clean, funded⟩ cached
    refine ⟨clean, ?_⟩
    intro other found here
    rcases update_eq_some here with ⟨rfl, rfl⟩ | ⟨-, here⟩
    · rw [balance_updateRoot]
      exact funded other obj cached
    · exact funded other found here
  · rintro state addr obj ⟨clean, funded⟩ cached
    have encodable := funded addr obj cached
    rw [updateOperationObject, if_neg (by omega)]
    exact ⟨⟨clean, funded⟩, clean, funded⟩

theorem intermediateRoot :
    SlotsKept opened mid ∧
      (∀ addr, mid.objects addr = (db.objects addr).map fun obj => obj.updateRoot opened.database) ∧
      (∀ addr obj, mid.objects addr = some obj → obj.Settled ∧ Mirrors (mid.trie addr) obj) ∧
      (∀ addr, db.objects addr = none → mid.trie addr = db.trie addr) ∧
      root = accountRoot mid.trie := by
  have clean := kept.dbErr_intermediateRoot spared ran
  rcases CellsKept.intermediateRoot kept delete fun _ _ cached => (kept.flush spared cached).1 with
    ⟨new, rooted, pending, framed, objects, records⟩
  cases ran.symm.trans rooted
  have finalised := kept.finalise spared
  have mirrored : ∀ addr obj, mid.objects addr = some obj →
      obj.Settled ∧ Mirrors (mid.trie addr) obj := by
    intro addr obj here
    rw [objects] at here
    rcases map_eq_some_iff.mp here with ⟨old, cached, rfl⟩
    have slots := kept.slots cached
    rw [records, (kept.flush spared cached).2]
    refine ⟨(slots.layered.updateRoot _).2, ?_⟩
    split
    · exact ⟨_, rfl, rfl⟩
    · next untouched =>
      rw [not_or] at untouched
      rcases kept.mirrored cached untouched.1 untouched.2 with ⟨settled, _⟩
      rwa [slots.layered.updateRoot_of_settled settled]
  refine ⟨?_, objects, mirrored, ?_, rfl⟩
  · refine ⟨?_, clean, ?_, ?_, ?_, ?_, fun addr => ⟨?_, ?_, ?_⟩⟩
    · rw [framed.database, finalised.database]
    · rw [pending]
      exact List.nodup_nil
    · rw [framed.dirty]
      exact finalised.dirtyDistinct
    · simp [pending]
    · intro addr listed
      rw [framed.dirty, framed.journal] at listed
      have old := finalised.cached addr listed
      rw [objects_finalise] at old
      rw [objects]
      split at old
      · simpa using old
      · simpa using old
    · intro untouched
      rw [framed.dirty, mem_dirty_finalise, not_or] at untouched
      change mid.trie addr = _
      rw [← kept.untouched untouched.1, records]
      rcases cached : db.objects addr with _ | obj
      · exact (CellsKept.flush_of_uncached kept delete cached).2
      rw [(kept.flush spared cached).2, if_neg]
      rintro (marked | waiting)
      · exact untouched.2 ⟨marked, by simp [cached]⟩
      · exact untouched.1 (kept.pendingDirty addr waiting)
    · intro obj here
      change mid.objects addr = _ at here
      rw [objects] at here
      rcases map_eq_some_iff.mp here with ⟨old, cached, rfl⟩
      exact (kept.slots cached).updateRoot
    · exact fun obj here _ _ => mirrored addr obj here
  · intro addr missing
    rw [records]
    exact (CellsKept.flush_of_uncached kept delete missing).2

end SlotsKept

theorem SlotRun.kept {opened db : OperationDB} {tries : Set StorageTrie} (run : SlotRun opened db)
    (opens : newOperationDb root disk = some opened) (readable : opened.Readable)
    (roots : StorageRoots tries)
    (addressed : Addressed storageRoot tries opened.database.storageTries) :
    SlotsKept opened db := by
  induction run with
  | start => exact .start opens
  | getState _ addr key kept => exact kept.getState readable roots addressed addr key
  | setState _ _ key value here kept => exact kept.setState readable roots addressed here key value
  | finalise _ _ spared kept => exact kept.finalise spared
  | intermediateRoot _ _ spared ran kept => exact (kept.intermediateRoot spared ran).1

end OperationDB

namespace OperationObject

/-- A zero waits to be flushed over a value of the trie that no flush has put
there. -/
def LosesZero (object : OperationObject) (database : Database) (key : Hash) : Prop :=
  object.written key = some 0 ∧ object.originStorage.lookup key = none ∧
    object.shownTrie database key ≠ 0

variable {obj : OperationObject} {disk : Database}

/-- What the trie of an object holds after a flush is what the object shows
before, unless a zero is lost. -/
theorem Layered.flush_eq_iff (layered : obj.Layered) (key : Hash) :
    (obj.updateRoot disk).shownTrie disk key = obj.shownState disk key ↔
      ¬ obj.LosesZero disk key := by
  have shown : obj.shownState disk key =
      (obj.written key).getD ((obj.originStorage.lookup key).getD (obj.shownTrie disk key)) := by
    rw [shownState, shownCommitted, layered.plain, written]
    rcases obj.dirtyStorage.lookup key with _ | dirty
    · rcases obj.pendingStorage.lookup key with _ | pending <;> simp
    · simp
  rcases opened : obj.trie with _ | trie
  · rcases layered.unopened opened with ⟨settled, origin⟩
    rw [layered.updateRoot_of_unopened opened, shown, settled.written, origin]
    simp [LosesZero, settled.written]
  have trieShown : obj.shownTrie disk = trie := by simp [shownTrie, opened]
  rcases layered.updateRoot_of_opened opened disk with ⟨origin, updated, -⟩
  have flushedShown : (obj.updateRoot disk).shownTrie disk = obj.flushed trie := by
    rw [updated]
    rfl
  rw [flushedShown, shown, LosesZero, trieShown, flushed]
  have agrees := layered.origin trie opened key
  rcases obj.written key with _ | value
  · rcases remembered : obj.originStorage.lookup key with _ | original
    · simp
    · simp [agrees original remembered]
  rcases remembered : obj.originStorage.lookup key with _ | original
  · by_cases zero : value = 0#256 <;> simp [zero]
  · by_cases same : value = original
    · simp [same, agrees original remembered]
    · simp [same]

end OperationObject

namespace OperationDB

variable {opened db mid : OperationDB} {tries : Set StorageTrie}

/-- After `Commit`, every storage root that could be opened still can be, and so can the root of
every flushed account. -/
theorem SlotsKept.openStorageTrie_stored (kept : SlotsKept opened mid)
    (readable : opened.Readable) (roots : StorageRoots tries)
    (addressed : Addressed storageRoot tries opened.database.storageTries)
    (known : ∀ addr obj trie, mid.objects addr = some obj → obj.trie = some trie → trie ∈ tries)
    (mirrored : ∀ addr obj, mid.objects addr = some obj →
      Mirrors (mid.trie addr) obj) (root : Hash) :
    (∀ digest trie, opened.database.openStorageTrie digest = some trie →
        (mid.stored root).openStorageTrie digest = some trie) ∧
      ∀ addr obj, mid.objects addr = some obj →
        (mid.stored root).openStorageTrie obj.data.root = some (obj.shownTrie opened.database) := by
  have listed : ∀ trie ∈ mid.dirty.filterMap mid.writtenTrie, trie ∈ tries := by
    intro trie mem
    rcases List.mem_filterMap.mp mem with ⟨addr, -, written⟩
    rcases bind_eq_some_iff.mp written with ⟨obj, live, opens⟩
    exact known addr obj trie (filter_eq_some_iff.mp live).1 opens
  rw [← kept.database] at addressed
  rcases addressed.lookup_keepAll roots.injective listed with ⟨still, wrote⟩
  rw [← storageTries_stored root] at still wrote
  have remain : ∀ digest trie, opened.database.openStorageTrie digest = some trie →
      (mid.stored root).openStorageTrie digest = some trie := by
    intro digest trie opens
    rw [← kept.database] at opens
    exact Database.openStorageTrie_of_kept still opens
  refine ⟨remain, ?_⟩
  intro addr obj here
  have slots := kept.slots here
  rcases trieOpened : obj.trie with _ | trie
  · rcases isSome_iff_exists.mp (slots.opens trieOpened).2 with ⟨trie, opens⟩
    rw [remain _ trie opens, shownTrie, trieOpened, opens]
    rfl
  have mem := known addr obj trie here trieOpened
  have shown : obj.shownTrie opened.database = trie := by simp [shownTrie, trieOpened]
  rw [slots.layered.root trie trieOpened, shown]
  by_cases dirty : addr ∈ mid.dirty
  · apply roots.openStorageTrie mem
    apply wrote
    have live : mid.liveObject addr = some obj := by simp [liveObject, here, slots.alive]
    refine List.mem_filterMap.mpr ⟨addr, dirty, ?_⟩
    rw [writtenTrie, live, bind_some, trieOpened]
  -- the trie is the one that the record was opened with
  rcases mirrored addr obj here with ⟨data, stored, same⟩
  rw [kept.untouched dirty] at stored
  rcases isSome_iff_exists.mp (readable.opens addr data stored) with ⟨original, opens⟩
  rw [← openStorageTrie_ofAccount, same,
    openStorageTrie_ofAccount, slots.layered.root trie trieOpened] at opens
  rw [kept.database] at addressed
  rcases roots.of_openStorageTrie addressed (roots.ne_zero trie mem) opens with
    ⟨originalMember, rooted⟩
  rw [roots.injective originalMember mem rooted] at opens
  exact remain _ trie opens

theorem SlotsKept.getState_reopened_of_uncached (kept : SlotsKept opened db)
    (readable : opened.Readable)
    (remain : ∀ digest trie, opened.database.openStorageTrie digest = some trie →
      (mid.stored root).openStorageTrie digest = some trie)
    (missing : db.objects addr = none) (unloaded : mid.trie addr = db.trie addr)
    (key : Hash) : ((mid.reopened root).getState addr key).1 = (db.getState addr key).1 := by
  have original := kept.untouched (CellsKept.clean_of_uncached kept missing)
  rw [getState_fst_find, getState_fst_find]
  simp only [reopened, find, missing, unloaded]
  rcases record : db.trie addr with _ | data
  · rfl
  · rw [record] at original
    rcases isSome_iff_exists.mp (readable.opens addr data original.symm) with ⟨trie, opensData⟩
    simp [shownState_ofAccount, remain _ _ opensData, kept.database, opensData]

theorem SlotsKept.getState_reopened_iff (kept : SlotsKept opened db) {obj : OperationObject}
    (found : db.objects addr = some obj)
    (mirrors : Mirrors (mid.trie addr) (obj.updateRoot opened.database))
    (opensAfter : (mid.stored root).openStorageTrie
      (obj.updateRoot opened.database).data.root =
        some ((obj.updateRoot opened.database).shownTrie opened.database)) (key : Hash) :
    ((mid.reopened root).getState addr key).1 = (db.getState addr key).1 ↔
      ¬ obj.LosesZero db.database key := by
  rcases mirrors with ⟨data, record, same⟩
  rw [← openStorageTrie_ofAccount, ← same, openStorageTrie_ofAccount] at opensAfter
  rw [getState_fst_find, getState_fst_find]
  simp only [reopened, find, found, none_or, record, map_some, elim_some, shownState_ofAccount,
    opensAfter, kept.database]
  exact (kept.slots found).layered.flush_eq_iff key

/-- The tries that a commit writes are in play, and only the empty trie has the empty root. -/
structure CommitsAmong (tries : Set StorageTrie) (db : OperationDB) (deleteEmptyObjects : Bool) :
    Prop where
  storage : ∀ root middle, db.intermediateRoot deleteEmptyObjects = .ok (root, middle) →
    ∀ address object trie, middle.objects address = some object →
      object.trie = some trie → trie ∈ tries
  root_ne_zero : ∀ root middle,
    db.intermediateRoot deleteEmptyObjects = .ok (root, middle) → root ≠ 0
  root_empty : ∀ root middle,
    db.intermediateRoot deleteEmptyObjects = .ok (root, middle) → root = emptyRoot →
      middle.trie = fun _ => none

/-- After a commit and the reopening at its root, every slot reads as before exactly if no zero
was waiting to be flushed over a value of the trie that no flush had put there. -/
theorem slots_reopened_iff {root : Hash} {database : Database} {deleteEmptyObjects : Bool}
    (opens : newOperationDb root database = some opened) (readable : opened.Readable)
    (roots : StorageRoots tries) (addressed : Addressed storageRoot tries database.storageTries)
    (run : SlotRun opened db) (spared : db.Spares deleteEmptyObjects)
    (among : CommitsAmong tries db deleteEmptyObjects) :
    ∃ committed after reopened, db.commit deleteEmptyObjects = .ok (.ok committed, after) ∧
      newOperationDb committed after.database = some reopened ∧
      ((∀ address key, (reopened.getState address key).1 = (db.getState address key).1) ↔
        ∀ address object key, db.objects address = some object →
          ¬ object.LosesZero db.database key) := by
  have behind : opened.database = database := by
    rw [newOperationDb, Option.map_eq_some_iff] at opens
    rcases opens with ⟨trie, -, rfl⟩
    rfl
  rw [← behind] at addressed
  have kept := run.kept opens readable roots addressed
  rcases intermediateRoot_spec kept.pendingDistinct
    (fun address pending => kept.cached address (.inl (kept.pendingDirty address pending)))
    deleteEmptyObjects with ⟨mid, rooted, -⟩
  rcases kept.intermediateRoot spared rooted with ⟨keptMiddle, objects, mirrored, unloaded, -⟩
  have ready : ∀ address ∈ mid.dirty, ∃ object, mid.objects address = some object ∧
      object.Layered ∧ object.Settled := by
    intro address dirty
    rcases Option.isSome_iff_exists.mp (keptMiddle.cached address (.inl dirty)) with
      ⟨object, present⟩
    exact ⟨object, present, (keptMiddle.slots present).layered, (mirrored address object present).1⟩
  rcases commit_eq kept.clean rooted keptMiddle.dirtyDistinct ready with ⟨after, ran, stored⟩
  refine ⟨accountRoot mid.trie, after, mid.reopened (accountRoot mid.trie),
    ran, ?_, ?_⟩
  · rw [stored]
    exact newOperationDb_stored (among.root_ne_zero _ _ rooted) (among.root_empty _ _ rooted)
  rcases keptMiddle.openStorageTrie_stored readable roots addressed (among.storage _ _ rooted)
    (fun address object present => (mirrored address object present).2)
    (accountRoot mid.trie) with ⟨remain, opensAfter⟩
  have cached : ∀ address key object, db.objects address = some object →
      (((mid.reopened (accountRoot mid.trie)).getState address key).1 =
          (db.getState address key).1 ↔ ¬ object.LosesZero db.database key) := by
    intro address key object found
    have present : mid.objects address = some (object.updateRoot opened.database) := by
      rw [objects, found, Option.map_some]
    exact kept.getState_reopened_iff found (mirrored address _ present).2
      (opensAfter address _ present) key
  refine ⟨?_, ?_⟩
  · intro same address object key found
    exact (cached address key object found).mp (same address key)
  · intro safe address key
    rcases found : db.objects address with _ | object
    · exact kept.getState_reopened_of_uncached readable remain found (unloaded address found) key
    · exact (cached address key object found).mpr (safe address object key found)

end OperationDB

end

/-- Primitives for runs with one account and one slot: the roots read the account
and the slot off the tries. -/
@[reducible]
def slotCrypto : Crypto :=
  { sampleCrypto with
    accountRoot := fun trie => if (trie 0x11).isSome then 1 else emptyRoot
    storageRoot := fun trie => if trie 1 = 0 then emptyRoot else trie 1 }

def slotDatabase : Database where
  accountTries root :=
    if root = 1 then
      some (Function.update (fun _ => none) 0x11
        (some { nonce := 1, balance := 5, root := 7, codeHash := 0 }))
    else none
  storageTries root := if root = 7 then some (Function.update (fun _ => 0) 1 7) else none
  codes _ := none

def slotState : OperationDB where
  database := slotDatabase
  originalRoot := 1
  trie := Function.update (fun _ => none) 0x11
    (some { nonce := 1, balance := 5, root := 7, codeHash := 0 })

def singleSlots : Set StorageTrie :=
  { trie | ∃ value, value ≠ emptyRoot ∧ trie = Function.update (fun _ => 0) 1 value }

attribute [local instance] slotCrypto

theorem storageRoot_singleSlot (value : Hash) :
    storageRoot (update (fun _ => 0) 1 value) = if value = 0 then emptyRoot else value := rfl

theorem storageRoots_singleSlots : StorageRoots singleSlots where
  injective := by
    rintro _ ⟨_, plain, rfl⟩ _ ⟨_, _, rfl⟩ same
    rw [storageRoot_singleSlot, storageRoot_singleSlot] at same
    grind
  empty_mem := ⟨0, by decide, (update_eq_self_iff.mpr rfl).symm⟩
  empty := rfl
  ne_zero := by
    rintro _ ⟨_, plain, rfl⟩
    rw [storageRoot_singleSlot]
    split
    · decide
    · assumption

theorem addressed_slotDatabase : Addressed storageRoot singleSlots slotDatabase.storageTries := by
  refine ⟨?_, ?_⟩
  · intro root trie found
    simp only [slotDatabase] at found
    split at found
    · cases found
      exact ⟨7, by decide, rfl⟩
    · cases found
  · intro root trie found
    simp only [slotDatabase] at found
    split at found
    · next same =>
      cases found
      rw [same]
      decide
    · cases found

theorem slotState_opens : newOperationDb 1 slotDatabase = some slotState := rfl

theorem slotState_readable : slotState.Readable := by
  refine ⟨?_, ?_⟩ <;> intro addr data found <;> by_cases same : addr = 0x11
  · subst same
    cases found
    decide
  · simp only [slotState, update_of_ne same, reduceCtorEq] at found
  · subst same
    cases found
    rfl
  · simp only [slotState, update_of_ne same, reduceCtorEq] at found

def slotObject (value : Hash) : OperationObject where
  data := { nonce := 1, balance := 5, root := 7, codeHash := 0 }
  trie := some (Function.update (fun _ => 0) 1 7)
  dirtyStorage := AList.insert 1 value ∅

theorem setState_slot (changed : value ≠ 7) : (slotState.setState 0x11 1 value).objects =
        update slotState.objects 0x11 (some (slotObject value)) ∧
      (slotState.setState 0x11 1 value).database = slotDatabase := by
  let fresh := ofAccount (slotObject 0).data
  have loaded : slotState.getOrNewOperationObject 0x11 =
      (fresh, slotState.setOperationObject 0x11 fresh) := rfl
  have read : fresh.getState slotDatabase 1 =
      (7, { slotObject 0 with dirtyStorage := ∅ }) := rfl
  have behind : (slotState.setOperationObject 0x11 fresh).database = slotDatabase := rfl
  simp only [OperationDB.setState, loaded, behind, read, if_neg (Ne.symm changed)]
  refine ⟨?_, rfl⟩
  exact update_idem ..

theorem spares_setState_slot (changed : value ≠ 7) :
    (slotState.setState 0x11 1 value).Spares false := by
  intro _ _ _ cached
  rw [(setState_slot changed).1] at cached
  rcases update_eq_some cached with ⟨rfl, rfl⟩ | ⟨-, cached⟩
  · rfl
  · cases cached

/-- The slot is written zero and the state is committed: the reopened state shows
the old value. -/
theorem zeroed_slot_reappears :
    ∃ root after reopened, OperationDB.SlotRun slotState (slotState.setState 0x11 1 0) ∧
      (slotState.setState 0x11 1 0).Spares false ∧
      ((slotState.setState 0x11 1 0).getState 0x11 1).1 = 0 ∧
      (slotState.setState 0x11 1 0).commit false = .ok (.ok root, after) ∧
      newOperationDb root after.database = some reopened ∧ (reopened.getState 0x11 1).1 = 7 := by
  refine ⟨_, _, _, .setState .start _ _ _ (by decide +kernel), spares_setState_slot (by decide),
    by decide +kernel, rfl, rfl, by decide +kernel⟩

theorem written_slot_persists :
    ∃ root after reopened, (slotState.setState 0x11 1 9).commit false = .ok (.ok root, after) ∧
      newOperationDb root after.database = some reopened ∧
      ∀ address key, (reopened.getState address key).1 =
        ((slotState.setState 0x11 1 9).getState address key).1 := by
  have changed : (9 : Hash) ≠ 7 := by decide
  have run : OperationDB.SlotRun slotState (slotState.setState 0x11 1 9) :=
    .setState .start _ _ _ (by decide +kernel)
  have spared := spares_setState_slot changed
  have kept := run.kept slotState_opens slotState_readable storageRoots_singleSlots
    addressed_slotDatabase
  have among : OperationDB.CommitsAmong singleSlots (slotState.setState 0x11 1 9) false := by
    have computed : ∃ mid, (slotState.setState 0x11 1 9).intermediateRoot false =
        .ok (1, mid) :=
      ⟨_, rfl⟩
    rcases computed with ⟨mid, rooted⟩
    have known : ∀ address obj trie, mid.objects address = some obj →
        obj.trie = some trie → trie ∈ singleSlots := by
      intro address obj trie present opened
      rw [(kept.intermediateRoot spared rooted).2.1, (setState_slot changed).1] at present
      by_cases here : address = 0x11
      · subst here
        rw [Function.update_self, Option.map_some, Option.some.injEq] at present
        rw [← present] at opened
        cases opened
        exact ⟨9, by decide, Function.update_idem ..⟩
      · rw [Function.update_of_ne here] at present
        cases present
    refine ⟨?_, ?_, ?_⟩ <;> intro root other ran <;> cases rooted.symm.trans ran
    · exact known
    · decide
    · intro empty
      exact absurd empty (by decide)
  rcases OperationDB.slots_reopened_iff slotState_opens slotState_readable
    storageRoots_singleSlots addressed_slotDatabase run spared among with
    ⟨root, after, reopened, ran, opens, same⟩
  refine ⟨root, after, reopened, ran, opens, same.mpr ?_⟩
  intro address obj key cached loses
  rw [(setState_slot changed).1] at cached
  rcases update_eq_some cached with ⟨rfl, rfl⟩ | ⟨-, cached⟩
  · have zero := loses.1
    by_cases first : key = 1
    · subst first
      exact absurd zero (by decide)
    · simp only [OperationObject.written, slotObject, AList.lookup_insert_ne first,
        AList.lookup_empty, Option.or_none, reduceCtorEq] at zero
  · cases cached

end Octopus
