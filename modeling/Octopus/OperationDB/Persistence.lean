import Octopus.OperationDB.Flush

/-!
# Accounts across a commit

An account that `Finalise` deletes keeps its object in the cache and goes on reading as
present.  A reset by `CreateAccount` does not mark the account as dirty, and a negative
balance cannot be encoded.  In all other runs the accounts read after reopening as before.
-/

namespace Octopus

open Library Crypto Function Option OperationObject OperationObject

variable {data : StateAccount} {root : Hash} {later : Database} {entry : JournalEntry}
  {code : Bytes}

section

variable [Crypto]

structure CodeHashes (codes : Set Bytes) : Prop where
  injective : Set.InjOn Crypto.keccak256 codes
  empty_mem : [] ∈ codes

namespace OperationObject

/-- Nothing is in the layers of the storage, and the code, once it is loaded, is the one of the
code hash and is stored or marked as dirty. -/
structure SlotFree (codes : Set Bytes) (database : Database) (object : OperationObject) :
    Prop where
  plain : object.fakeStorage = none
  clean : object.dbErr = none
  unopened : object.trie = none
  settled : object.Settled
  origin : object.originStorage = ∅
  loaded : ∀ code, object.code = some code →
    code ∈ codes ∧ code ≠ [] ∧ object.data.codeHash = Crypto.keccak256 code
  stored : ∀ code, object.code = some code → object.dirtyCode = false →
    database.codes object.data.codeHash = some code
  unloaded : object.code = none → object.data.codeHash = emptyCodeHash ∨
    (database.contractCode object.data.codeHash).isSome

namespace SlotFree

variable {codes : Set Bytes} {disk : Database} {obj : OperationObject}

theorem ofAccount
    (known : data.codeHash = emptyCodeHash ∨ (disk.contractCode data.codeHash).isSome) :
    (OperationObject.ofAccount data).SlotFree codes disk where
  plain := rfl
  clean := rfl
  unopened := rfl
  settled := ⟨rfl, rfl⟩
  origin := rfl
  loaded _ coded := absurd coded (by simp [OperationObject.ofAccount])
  stored _ coded := absurd coded (by simp [OperationObject.ofAccount])
  unloaded _ := known

theorem blank : blank.SlotFree codes disk := by
  change (OperationObject.ofAccount OperationObject.blank.data).SlotFree codes disk
  exact ofAccount (.inl rfl)

theorem dirtyCode_getCode (obj : OperationObject) (disk : Database) :
    (obj.getCode disk).2.dirtyCode = obj.dirtyCode ∧
      (obj.getCode disk).2.deleted = obj.deleted := by
  rw [getCode_snd]
  exact ⟨rfl, rfl⟩

section

variable (free : obj.SlotFree codes disk)
include free

theorem layered : obj.Layered where
  plain := free.plain
  clean := free.clean
  unopened _ := ⟨free.settled, free.origin⟩
  root trie opened := absurd (free.unopened.symm.trans opened) (by simp)
  origin trie opened := absurd (free.unopened.symm.trans opened) (by simp)

theorem congr (nonce : Nat) (balance : Int) (suicided deleted : Bool) :
    { obj with
      data := { obj.data with nonce := nonce, balance := balance }
      suicided := suicided
      deleted := deleted }.SlotFree codes disk where
  plain := free.plain
  clean := free.clean
  unopened := free.unopened
  settled := ⟨free.settled.dirty, free.settled.pending⟩
  origin := free.origin
  loaded := free.loaded
  stored := free.stored
  unloaded := free.unloaded

theorem setCode (known : code ∈ codes) :
    (obj.setCode (keccak256 code) code).SlotFree codes disk where
  plain := free.plain
  clean := free.clean
  unopened := free.unopened
  settled := ⟨free.settled.dirty, free.settled.pending⟩
  origin := free.origin
  loaded other coded := by
    by_cases noCode : code = []
    · simp [OperationObject.setCode, noCode] at coded
    · simp only [OperationObject.setCode, noCode, if_false, some.injEq] at coded
      subst coded
      exact ⟨known, noCode, rfl⟩
  stored _ _ marked := absurd marked (by simp [OperationObject.setCode])
  unloaded uncoded := by
    by_cases noCode : code = []
    · subst noCode
      exact .inl rfl
    · simp [OperationObject.setCode, noCode] at uncoded

theorem getCode (addressed : Addressed keccak256 codes disk.codes) :
    (obj.getCode disk).2.SlotFree codes disk := by
  unfold OperationObject.getCode
  split
  · exact free
  · next uncoded =>
    split
    · exact free
    split
    · next code found =>
      rcases Database.contractCode_eq_some found with ⟨stored, nonempty⟩
      refine ⟨free.plain, free.clean, free.unopened, ⟨free.settled.dirty,
        free.settled.pending⟩, free.origin, ?_, ?_, ?_⟩
      · intro other same
        cases same
        exact ⟨addressed.mem _ _ stored, nonempty, (addressed.digest_eq _ _ stored).symm⟩
      · intro other same _
        cases same
        exact stored
      · intro missing
        cases missing
    · exact free

theorem finalise_eq : obj.finalise = obj :=
  free.settled.finalise

theorem updateRoot_eq : obj.updateRoot disk = obj :=
  free.layered.updateRoot_of_unopened free.unopened disk

theorem keccak256_shownCode (addressed : Addressed keccak256 codes disk.codes) :
    keccak256 (obj.shownCode disk) = obj.data.codeHash := by
  rcases coded : obj.code with _ | code
  · by_cases empty : obj.data.codeHash = emptyCodeHash
    · simp only [shownCode, coded, empty]
      rfl
    · rcases isSome_iff_exists.mp ((free.unloaded coded).resolve_left empty) with ⟨code, found⟩
      simp only [shownCode, coded, empty, found]
      exact addressed.digest_eq _ _ (Database.contractCode_eq_some found).1
  · simp only [shownCode, coded]
    exact (free.loaded code coded).2.2.symm

/-- An account that is loaded under the code hash of an object shows its code, if the database
has kept what it had and has stored that code. -/
theorem shownCode_ofAccount (hashes : CodeHashes codes)
    (kept : ∀ codeHash code, disk.codes codeHash = some code → later.codes codeHash = some code)
    (wrote : ∀ code, obj.code = some code → obj.dirtyCode = true →
      later.codes obj.data.codeHash = some code) (same : data.codeHash = obj.data.codeHash) :
    (OperationObject.ofAccount data).shownCode later = obj.shownCode disk := by
  have loads : (OperationObject.ofAccount data).shownCode later =
      if obj.data.codeHash = emptyCodeHash then []
      else (later.contractCode obj.data.codeHash).getD [] := by
    simp [shownCode, OperationObject.ofAccount, same]
  rw [loads]
  rcases coded : obj.code with _ | code
  · by_cases empty : obj.data.codeHash = emptyCodeHash
    · simp [shownCode, coded, empty]
    · rcases isSome_iff_exists.mp ((free.unloaded coded).resolve_left empty) with ⟨code, old⟩
      rcases Database.contractCode_eq_some old with ⟨stored, nonempty⟩
      simp [shownCode, coded, old, Database.contractCode_of_stored (kept _ _ stored) nonempty]
  rcases free.loaded code coded with ⟨mem, nonempty, hashed⟩
  have special : obj.data.codeHash ≠ emptyCodeHash := by
    intro empty
    exact nonempty (hashes.injective mem hashes.empty_mem (hashed.symm.trans empty))
  have stored : later.codes obj.data.codeHash = some code := by
    cases marked : obj.dirtyCode with
    | true => exact wrote code coded marked
    | false => exact kept _ _ (free.stored code coded marked)
  simp [shownCode, coded, if_neg special, Database.contractCode_of_stored stored nonempty]

end

theorem shownCode_of_kept
    (known : data.codeHash = emptyCodeHash ∨ (disk.contractCode data.codeHash).isSome)
    (hashes : CodeHashes codes) (kept : ∀ codeHash code, disk.codes codeHash = some code →
      later.codes codeHash = some code) :
    (OperationObject.ofAccount data).shownCode later =
      (OperationObject.ofAccount data).shownCode disk := by
  have free : (OperationObject.ofAccount data).SlotFree codes disk := .ofAccount known
  apply free.shownCode_ofAccount hashes kept
  · intro code loaded
    cases loaded
  · rfl

end SlotFree

end OperationObject

/-- The account operations, the reads of accounts, and the end of a transaction. -/
inductive AccountStep where
  | createAccount (address : Address)
  | addBalance (address : Address) (amount : Int)
  | subBalance (address : Address) (amount : Int)
  | setNonce (address : Address) (nonce : Nat)
  | setCode (address : Address) (code : Bytes)
  | suicide (address : Address)
  | exist (address : Address)
  | getBalance (address : Address)
  | getNonce (address : Address)
  | getCode (address : Address)
  | finalise (deleteEmptyObjects : Bool)

namespace AccountStep

def apply : AccountStep → OperationDB → OperationDB
  | createAccount address, db => db.createAccount address
  | addBalance address amount, db => db.addBalance address amount
  | subBalance address amount, db => db.subBalance address amount
  | setNonce address nonce, db => db.setNonce address nonce
  | setCode address code, db => db.setCode address code
  | suicide address, db => (db.suicide address).2
  | exist address, db => (db.exist address).2
  | getBalance address, db => (db.getBalance address).2
  | getNonce address, db => (db.getNonce address).2
  | getCode address, db => (db.getCode address).2
  | finalise deleteEmptyObjects, db => db.finalise deleteEmptyObjects

def Creates : AccountStep → Address → Prop
  | createAccount created, address => created = address
  | addBalance created _, address => created = address
  | subBalance created _, address => created = address
  | setNonce created _, address => created = address
  | setCode created _, address => created = address
  | suicide _, _ => False
  | exist _, _ => False
  | getBalance _, _ => False
  | getNonce _, _ => False
  | getCode _, _ => False
  | finalise _, _ => False

end AccountStep

def Account.report (account : Account) : Nat × Int × Bytes :=
  (account.nonce, account.balance, account.code)

namespace OperationDB

def afterSteps (opened : OperationDB) (steps : List AccountStep) : OperationDB :=
  steps.foldl (fun db step => step.apply db) opened

def Dooms (db : OperationDB) (deleteEmptyObjects : Bool) (address : Address) : Prop :=
  address ∈ db.journal.dirties ∧
    ∃ object, db.objects address = some object ∧ object.doomed deleteEmptyObjects = true

def DeletedIn (opened : OperationDB) (steps : List AccountStep) (address : Address) : Prop :=
  ∃ before deleteEmptyObjects later, steps = before ++ .finalise deleteEmptyObjects :: later ∧
    (opened.afterSteps before).Dooms deleteEmptyObjects address ∧
    ∀ step ∈ later, ¬ step.Creates address

structure SameAccount (first second : OperationDB) (address : Address) : Prop where
  exist : (first.exist address).1 = (second.exist address).1
  balance : (first.getBalance address).1 = (second.getBalance address).1
  nonce : (first.getNonce address).1 = (second.getNonce address).1
  code : (first.getCode address).1 = (second.getCode address).1

/-- The balances of a freshly opened state can be encoded, and its code is stored. -/
structure CodeReadable (db : OperationDB) : Prop where
  funded : ∀ address data, db.trie address = some data → 0 ≤ data.balance
  coded : ∀ address data, db.trie address = some data →
    data.codeHash = emptyCodeHash ∨ (db.database.contractCode data.codeHash).isSome

end OperationDB

structure AccountCell.Kept (codes : Set Bytes) (database : Database)
    (original : Option StateAccount) (cell : AccountCell) (dirty : Prop) : Prop where
  record : cell.record = original
  pending : dirty → cell.pending = true
  free : ∀ object, cell.object = some object → object.SlotFree codes database
  deleted : ∀ object, cell.object = some object → object.deleted = true → dirty
  coded : ∀ object, cell.object = some object → object.dirtyCode = true →
    cell.dirtied = true ∨ dirty

namespace OperationDB

def Gone (db : OperationDB) (deleteEmptyObjects : Bool) (address : Address)
    (object : OperationObject) : Bool :=
  object.deleted || (decide (address ∈ db.journal.dirties) && object.doomed deleteEmptyObjects)

def AccountsKept (codes : Set Bytes) (opened : OperationDB) : OperationDB → Prop :=
  CellsKept (fun address => AccountCell.Kept codes opened.database (opened.trie address)) opened

namespace AccountsKept

variable {codes : Set Bytes} {opened db mid : OperationDB} {addr : Address}
  {obj changed : OperationObject}

theorem start {disk : Database} (opens : newOperationDb root disk = some opened) :
    AccountsKept codes opened opened :=
  CellsKept.start opens fun _ => ⟨rfl, by simp, by simp, by simp, by simp⟩

section

variable (kept : AccountsKept codes opened db)
include kept

theorem free (cached : db.objects addr = some obj) : obj.SlotFree codes opened.database :=
  (kept.cells addr).free obj cached

theorem setOperationObject (free : changed.SlotFree codes opened.database)
    (deleted : changed.deleted = true → addr ∈ db.dirty)
    (coded : changed.dirtyCode = true → addr ∈ db.journal.dirties ∨ addr ∈ db.dirty) :
    AccountsKept codes opened (db.setOperationObject addr changed) := by
  have old := kept.cells addr
  refine CellsKept.setOperationObject kept ⟨old.record, old.pending, ?_, ?_, ?_⟩
  · rintro found ⟨⟩
    exact free
  · rintro found ⟨⟩
    exact deleted
  · rintro found ⟨⟩ marked
    exact (coded marked).imp_left decide_eq_true

theorem record (marks : entry.dirtied = some addr)
    (free : changed.SlotFree codes opened.database)
    (deleted : changed.deleted = true → addr ∈ db.dirty) :
    AccountsKept codes opened (db.record entry addr changed) := by
  have old := kept.cells addr
  refine CellsKept.record kept marks ⟨old.record, old.pending, ?_, ?_, ?_⟩
  · rintro found ⟨⟩
    exact free
  · rintro found ⟨⟩
    exact deleted
  · exact fun _ _ _ => .inl rfl

variable (readable : opened.CodeReadable)
include readable

theorem looked {found : Option OperationObject}
    (read : db.getOperationObject addr = (found, mid)) :
    AccountsKept codes opened mid ∧ mid.objects addr = found := by
  refine CellsKept.looked kept read fun data stored _ => ?_
  have old := kept.cells addr
  refine ⟨old.record, old.pending, ?_, ?_, ?_⟩
  · rintro _ ⟨⟩
    exact .ofAccount (readable.coded addr data (old.record.symm.trans stored))
  · rintro _ ⟨⟩ deleted
    cases deleted
  · rintro _ ⟨⟩ marked
    cases marked

theorem readObject {Value : Type} (addr : Address) (absent : Value)
    {getter : OperationObject → Database → Value × OperationObject}
    (caches : ∀ obj, obj.SlotFree codes opened.database →
      (getter obj opened.database).2.SlotFree codes opened.database ∧
      (getter obj opened.database).2.dirtyCode = obj.dirtyCode ∧
      (getter obj opened.database).2.deleted = obj.deleted) :
    AccountsKept codes opened (db.readObject addr absent getter).2 := by
  rcases read : db.getOperationObject addr with ⟨_ | obj, _⟩
  · simp only [OperationDB.readObject, read]
    exact (kept.looked readable read).1
  rcases kept.looked readable read with ⟨keptMiddle, cached⟩
  rcases caches obj (keptMiddle.free cached) with ⟨free, marked, deleted⟩
  simp only [OperationDB.readObject, read, keptMiddle.database]
  refine keptMiddle.setOperationObject free ?_ ?_
  · rw [deleted]
    exact (keptMiddle.cells addr).deleted obj cached
  · rw [marked]
    intro dirty
    exact ((keptMiddle.cells addr).coded obj cached dirty).imp_left of_decide_eq_true

theorem createAccount (addr : Address) : AccountsKept codes opened (db.createAccount addr) := by
  rcases db.createAccount_cases addr with ⟨-, same⟩ | ⟨prev, mid, read, same⟩
  · rw [same]
    exact kept.record rfl .blank (by simp [OperationObject.blank])
  -- the journal does not mark an account that was there before
  have keptMiddle := (kept.looked readable read).1
  have appended : AccountsKept codes opened (mid.append (.resetObject addr prev)) :=
    { keptMiddle with }
  rw [same]
  refine appended.setOperationObject
    (OperationObject.SlotFree.blank.congr 0 prev.data.balance false false) ?_ ?_
  · simp [OperationObject.setBalance, OperationObject.blank]
  · simp [OperationObject.setBalance, OperationObject.blank]

theorem getOrNewOperationObject (read : db.getOrNewOperationObject addr = (obj, mid)) :
    AccountsKept codes opened mid ∧ mid.objects addr = some obj := by
  rcases of_getOrNewOperationObject read with looked | ⟨-, rfl, rfl⟩
  · exact kept.looked readable looked
  · exact ⟨kept.record rfl .blank (by simp [blank]), update_self ..⟩

omit readable in
theorem change (cached : db.objects addr = some obj) (marks : entry.dirtied = some addr)
    (free : changed.SlotFree codes opened.database) (deleted : changed.deleted = obj.deleted) :
    AccountsKept codes opened (db.record entry addr changed) := by
  refine kept.record marks free ?_
  rw [deleted]
  exact (kept.cells addr).deleted obj cached

section

variable (addr : Address)

theorem addBalance (amount : Int) : AccountsKept codes opened (db.addBalance addr amount) := by
  rcases read : db.getOrNewOperationObject addr with ⟨_, _⟩
  rcases kept.getOrNewOperationObject readable read with ⟨keptMiddle, cached⟩
  simp only [OperationDB.addBalance, read]
  split
  · exact keptMiddle
  · exact keptMiddle.change cached rfl ((keptMiddle.free cached).congr _ _ _ _) rfl

theorem setNonce (nonce : Nat) : AccountsKept codes opened (db.setNonce addr nonce) := by
  rcases read : db.getOrNewOperationObject addr with ⟨_, _⟩
  rcases kept.getOrNewOperationObject readable read with ⟨keptMiddle, cached⟩
  simp only [OperationDB.setNonce, read]
  exact keptMiddle.change cached rfl ((keptMiddle.free cached).congr _ _ _ _) rfl

theorem setCode (addressed : Addressed keccak256 codes opened.database.codes)
    (addr : Address) (known : code ∈ codes) : AccountsKept codes opened (db.setCode addr code) := by
  rcases read : db.getOrNewOperationObject addr with ⟨obj, _⟩
  rcases kept.getOrNewOperationObject readable read with ⟨keptMiddle, cached⟩
  simp only [OperationDB.setCode, read, keptMiddle.database]
  refine keptMiddle.change cached rfl ?_ ?_
  · exact ((keptMiddle.free cached).getCode addressed).setCode known
  · exact (OperationObject.SlotFree.dirtyCode_getCode obj opened.database).2

theorem suicide : AccountsKept codes opened (db.suicide addr).2 := by
  rcases read : db.getOperationObject addr with ⟨_ | _, _⟩
  · simp only [OperationDB.suicide, read]
    exact (kept.looked readable read).1
  · rcases kept.looked readable read with ⟨keptMiddle, cached⟩
    simp only [OperationDB.suicide, read]
    exact keptMiddle.change cached rfl ((keptMiddle.free cached).congr _ _ _ _) rfl

end

omit readable in
theorem finalise (delete : Bool) : AccountsKept codes opened (db.finalise delete) := by
  refine CellsKept.finalise kept delete fun addr obj cached _ _ _ dirty => ?_
  have free := kept.free cached
  refine ⟨(kept.cells addr).record, fun _ => rfl, ?_, fun _ _ _ => dirty, fun _ _ _ => .inr dirty⟩
  rintro _ ⟨⟩
  rw [finalised]
  split
  · exact free.congr _ _ _ _
  · rw [free.finalise_eq]
    exact free

theorem apply (addressed : Addressed keccak256 codes opened.database.codes)
    (step : AccountStep) (known : ∀ addr code, step = .setCode addr code → code ∈ codes) :
    AccountsKept codes opened (step.apply db) := by
  cases step with
  | createAccount addr => exact kept.createAccount readable addr
  | addBalance addr amount => exact kept.addBalance readable addr amount
  | subBalance addr amount =>
    simp only [AccountStep.apply, subBalance_eq_addBalance]
    exact kept.addBalance readable addr (-amount)
  | setNonce addr nonce => exact kept.setNonce readable addr nonce
  | setCode addr code => exact kept.setCode readable addressed addr (known addr code rfl)
  | suicide addr => exact kept.suicide readable addr
  | exist addr | getBalance addr | getNonce addr =>
    exact kept.readObject readable addr _ fun _ free => ⟨free, rfl, rfl⟩
  | getCode addr =>
    exact kept.readObject readable addr _ fun obj free =>
      ⟨free.getCode addressed, OperationObject.SlotFree.dirtyCode_getCode obj _⟩
  | finalise delete => exact kept.finalise delete

end

theorem afterSteps {disk : Database} (opens : newOperationDb root disk = some opened)
    (readable : opened.CodeReadable) (addressed : Addressed keccak256 codes opened.database.codes)
    {steps : List AccountStep}
    (known : ∀ addr code, .setCode addr code ∈ steps → code ∈ codes) :
    AccountsKept codes opened (opened.afterSteps steps) := by
  refine List.foldlRecOn _ _ (motive := AccountsKept codes opened) (.start opens) ?_
  intro _ kept _ mem
  apply kept.apply readable addressed
  intro addr code same
  exact known addr code (same ▸ mem)

variable (kept : AccountsKept codes opened db) (delete : Bool)
include kept

theorem flush (cached : db.objects addr = some obj) :
    ((db.cell addr).flush delete).object = some { obj with deleted := Gone db delete addr obj } ∧
      ((db.cell addr).flush delete).record =
        if addr ∈ db.journal.dirties ∨ addr ∈ db.pending then
          if Gone db delete addr obj then none
          else if obj.data.balance < 0 then db.trie addr
          else some obj.data
        else db.trie addr := by
  have free := kept.free cached
  -- the two loops leave the object alone and write the record
  have loops : ∀ (cell : AccountCell) (deleted : Bool), cell.database = opened.database →
      cell.object = some { obj with deleted := deleted } →
        cell.updateRoot.write.object = some { obj with deleted := deleted } ∧
        cell.updateRoot.write.record =
          if deleted then none else if obj.data.balance < 0 then cell.record
          else some obj.data := by
    intro cell deleted behind present
    have unchanged : { obj with deleted := deleted }.updateRoot opened.database =
        { obj with deleted := deleted } :=
      (free.congr obj.data.nonce obj.data.balance obj.suicided deleted).updateRoot_eq
    have same : cell.updateRoot = cell := by
      rcases cell with ⟨disk, _, record, marked, pending⟩
      subst behind present
      simp [AccountCell.updateRoot, unchanged]
    simp [same, AccountCell.write, present, recorded]
  by_cases marked : addr ∈ db.journal.dirties
  · have finalised : obj.finalised delete = { obj with deleted := Gone db delete addr obj } := by
      rw [finalised, free.finalise_eq]
      cases doomed : obj.doomed delete <;> simp [Gone, marked, doomed]
    have looped := loops { db.cell addr with
        object := some (obj.finalised delete)
        pending := true } _ kept.database (congrArg some finalised)
    simpa [AccountCell.flush, cell, marked, AccountCell.finalise, cached] using looped
  · have same : obj = { obj with deleted := Gone db delete addr obj } := by simp [Gone, marked]
    by_cases pending : addr ∈ db.pending
    · have looped := loops (db.cell addr) _ kept.database (cached.trans (congrArg some same))
      simpa [AccountCell.flush, cell, marked, pending] using looped
    · rw [if_neg (by simp [marked, pending]), ← same]
      simp [AccountCell.flush, cell, marked, pending, cached]

end AccountsKept

variable {codes : Set Bytes} {opened db mid : OperationDB} {addr : Address}
  {obj : OperationObject} {delete : Bool}

/-- The object is not deleted, its balance can be encoded if it is written, and it agrees with
its record if not. -/
structure Persistable (db : OperationDB) (deleteEmptyObjects : Bool) (address : Address)
    (object : OperationObject) : Prop where
  alive : object.deleted = false
  spared : address ∈ db.journal.dirties → object.doomed deleteEmptyObjects = false
  encodable : address ∈ db.journal.dirties ∨ address ∈ db.pending → 0 ≤ object.data.balance
  recorded : address ∉ db.journal.dirties → address ∉ db.pending →
    ∃ data, db.trie address = some data ∧ data.nonce = object.data.nonce ∧
      data.balance = object.data.balance ∧ data.codeHash = object.data.codeHash

theorem AccountsKept.codes_stored (kept : AccountsKept codes opened db) (hashes : CodeHashes codes)
    (addressed : Addressed keccak256 codes opened.database.codes)
    (behind : mid.database = opened.database)
    (objects : ∀ addr, mid.objects addr = (db.objects addr).map fun obj =>
      { obj with deleted := Gone db delete addr obj }) (root : Hash) :
    (∀ codeHash code, opened.database.codes codeHash = some code →
        (mid.stored root).codes codeHash = some code) ∧
      ∀ addr obj code, db.objects addr = some obj → addr ∈ mid.dirty →
        Gone db delete addr obj = false → obj.code = some code → obj.dirtyCode = true →
            (mid.stored root).codes obj.data.codeHash = some code := by
  have listed : ∀ pair ∈ mid.dirty.filterMap mid.writtenCode,
      pair.2 ∈ codes ∧ pair.1 = keccak256 pair.2 := by
    intro pair mem
    rcases List.mem_filterMap.mp mem with ⟨addr, -, written⟩
    rcases bind_eq_some_iff.mp written with ⟨_, live, coded⟩
    have present := (filter_eq_some_iff.mp live).1
    rw [objects] at present
    rcases map_eq_some_iff.mp present with ⟨obj, cached, rfl⟩
    simp only [OperationObject.writtenCode, ite_none_right_eq_some, map_eq_some_iff] at coded
    rcases coded with ⟨-, code, coded, rfl⟩
    rcases (kept.free cached).loaded code coded with ⟨mem, -, hashed⟩
    exact ⟨mem, hashed⟩
  have known : ∀ code ∈ (mid.dirty.filterMap mid.writtenCode).map Prod.snd, code ∈ codes := by
    intro code mem
    rcases List.mem_map.mp mem with ⟨pair, written, rfl⟩
    exact (listed pair written).1
  rw [← behind] at addressed
  rcases addressed.lookup_keepAll hashes.injective known with ⟨still, wrote⟩
  rw [← OperationDB.codes_stored root fun pair mem => (listed pair mem).2] at still wrote
  refine ⟨?_, ?_⟩
  · rw [← behind]
    exact still
  · intro addr obj code cached dirty alive coded marked
    have live : mid.liveObject addr = some { obj with deleted := false } := by
      rw [liveObject, objects, cached, map_some, alive]
      rfl
    rw [((kept.free cached).loaded code coded).2.2]
    apply wrote
    refine List.mem_map.mpr ⟨(obj.data.codeHash, code), List.mem_filterMap.mpr
      ⟨addr, dirty, ?_⟩, rfl⟩
    rw [writtenCode, live]
    simp [OperationObject.writtenCode, coded, marked]

theorem sameAccount_iff_ledger {first second : OperationDB} :
    SameAccount first second addr ↔
      (first.ledger addr).map Account.report = (second.ledger addr).map Account.report := by
  have reads : SameAccount first second addr ↔
      (first.ledger addr).isSome = (second.ledger addr).isSome ∧
        first.ledger.balance addr = second.ledger.balance addr ∧
        first.ledger.nonce addr = second.ledger.nonce addr ∧
        first.ledger.code addr = second.ledger.code addr := by
    rw [← exist_fst, ← exist_fst, ← getBalance_fst, ← getBalance_fst, ← getNonce_fst,
      ← getNonce_fst, ← getCode_fst, ← getCode_fst]
    exact ⟨fun same => ⟨same.exist, same.balance, same.nonce, same.code⟩,
      fun ⟨exist, balance, nonce, code⟩ => ⟨exist, balance, nonce, code⟩⟩
  rw [reads]
  simp only [Ledger.balance, Ledger.nonce, Ledger.code]
  rcases first.ledger addr with _ | account <;> rcases second.ledger addr with _ | other <;>
    simp [Account.report, and_left_comm]

theorem ledger_reopened (root : Hash) : (mid.reopened root).ledger addr =
    (mid.trie addr).map fun data =>
      (ofAccount data).account (mid.stored root) := by
  simp [ledger, find, reopened, comp_def]

theorem sameAccount_iff (cached : db.objects addr = some obj) (root : Hash) :
    SameAccount (mid.reopened root) db addr ↔
      ∃ data, mid.trie addr = some data ∧ data.nonce = obj.data.nonce ∧
        data.balance = obj.data.balance ∧
        (ofAccount data).shownCode (mid.stored root) =
          obj.shownCode db.database := by
  have here : db.ledger addr = some (obj.account db.database) := by simp [ledger, find, cached]
  rw [sameAccount_iff_ledger, ledger_reopened, here]
  rcases mid.trie addr with _ | data
  · simp
  · simp [Account.report, account, ofAccount]

theorem AccountsKept.sameAccount_iff_persistable (kept : AccountsKept codes opened db)
    (readable : opened.CodeReadable) (hashes : CodeHashes codes)
    (addressed : Addressed keccak256 codes opened.database.codes)
    (behind : mid.database = opened.database)
    (dirty : mid.dirty = (db.finalise delete).dirty)
    (objects : ∀ addr, mid.objects addr = (db.objects addr).map fun obj =>
      { obj with deleted := Gone db delete addr obj })
    (records : ∀ addr, mid.trie addr = ((db.cell addr).flush delete).record) (root : Hash)
    (cached : db.objects addr = some obj) :
    SameAccount (mid.reopened root) db addr ↔ db.Persistable delete addr obj := by
  have old := kept.cells addr
  have free := kept.free cached
  have written := (kept.flush delete cached).2
  have original : db.trie addr = opened.trie addr := old.record
  have pending : addr ∈ db.pending ↔ addr ∈ db.dirty :=
    ⟨kept.pendingDirty addr, fun dirty => of_decide_eq_true (old.pending dirty)⟩
  rcases kept.codes_stored hashes addressed behind objects root with ⟨still, wrote⟩
  rw [sameAccount_iff cached, records, written, kept.database]
  refine ⟨?_, ?_⟩
  · rintro ⟨data, record, nonce, balance, code⟩
    by_cases touched : addr ∈ db.journal.dirties ∨ addr ∈ db.pending
    · rw [if_pos touched] at record
      split at record
      · cases record
      · next alive =>
        rw [Gone, Bool.or_eq_true, Bool.and_eq_true, decide_eq_true_iff, not_or,
          Bool.not_eq_true, not_and, Bool.not_eq_true] at alive
        refine ⟨alive.1, alive.2, ?_, fun unmarked unpending => ?_⟩
        · split at record
          · have funded := readable.funded addr data (original ▸ record)
            omega
          · omega
        · exact absurd touched (not_or.mpr ⟨unmarked, unpending⟩)
    · rw [if_neg touched] at record
      rw [not_or] at touched
      have known := readable.coded addr data (original ▸ record)
      have recordFree : (OperationObject.ofAccount data).SlotFree codes opened.database :=
        .ofAccount known
      have coded := OperationObject.SlotFree.shownCode_of_kept known hashes still
      refine ⟨?_, fun marked => absurd marked touched.1, ?_, ?_⟩
      · rw [Bool.eq_false_iff]
        exact fun deleted => touched.2 (pending.mpr (old.deleted obj cached deleted))
      · exact fun listed => absurd listed (not_or.mpr touched)
      · intro _ _
        refine ⟨data, record, nonce, balance, ?_⟩
        have hashed := recordFree.keccak256_shownCode addressed
        rw [← coded, code, free.keccak256_shownCode addressed] at hashed
        exact hashed.symm
  · intro persistable
    have listed : obj.dirtyCode = true → addr ∈ db.journal.dirties ∨ addr ∈ db.pending := by
      intro marked
      rcases old.coded obj cached marked with journaled | dirty
      · exact .inl (of_decide_eq_true journaled)
      · exact .inr (pending.mpr dirty)
    by_cases touched : addr ∈ db.journal.dirties ∨ addr ∈ db.pending
    · have alive : Gone db delete addr obj = false := by
        rw [Gone, persistable.alive]
        by_cases marked : addr ∈ db.journal.dirties
        · simp [persistable.spared marked]
        · simp [marked]
      have encodable := persistable.encodable touched
      rw [if_pos touched, alive, if_neg (by simp), if_neg (by omega)]
      refine ⟨obj.data, rfl, rfl, rfl, ?_⟩
      refine free.shownCode_ofAccount hashes still ?_ rfl
      intro code coded marked
      refine wrote addr obj code cached ?_ alive coded marked
      rw [dirty, mem_dirty_finalise]
      rcases touched with journaled | waiting
      · exact .inr ⟨journaled, by simp [cached]⟩
      · exact .inl (pending.mp waiting)
    · have apart := not_or.mp touched
      rcases persistable.recorded apart.1 apart.2 with ⟨data, record, nonce, balance, codeHash⟩
      rw [if_neg touched]
      refine ⟨data, record, nonce, balance, ?_⟩
      exact free.shownCode_ofAccount hashes still
        (fun _ _ marked => absurd (listed marked) touched) codeHash

theorem AccountsKept.sameAccount_of_uncached (kept : AccountsKept codes opened db)
    (readable : opened.CodeReadable) (hashes : CodeHashes codes)
    (still : ∀ codeHash code, opened.database.codes codeHash = some code →
      (mid.stored root).codes codeHash = some code) (records : ∀ addr, mid.trie addr =
      ((db.cell addr).flush delete).record) (missing : db.objects addr = none) :
    SameAccount (mid.reopened root) db addr := by
  have unwritten := (CellsKept.flush_of_uncached kept delete missing).2
  have original : db.trie addr = opened.trie addr := (kept.cells addr).record
  rw [sameAccount_iff_ledger, ledger_reopened, records, unwritten, ledger, find, missing,
    none_or, kept.database]
  rcases record : db.trie addr with _ | data
  · rfl
  · have code := OperationObject.SlotFree.shownCode_of_kept
      (readable.coded addr data (original ▸ record)) hashes still
    simp [Account.report, OperationObject.account, code]

def Deletionless (opened : OperationDB) (steps : List AccountStep) : Prop :=
  ∀ before deleteEmptyObjects later, steps = before ++ .finalise deleteEmptyObjects :: later →
    ∀ address, ¬ (opened.afterSteps before).Dooms deleteEmptyObjects address

def DeletionsShow (opened : OperationDB) (steps : List AccountStep) : Prop :=
  ∀ before later, steps = before ++ later → ∀ address, opened.DeletedIn before address →
    ((opened.afterSteps before).exist address).1 = false

theorem deletionsShow_iff (steps : List AccountStep) :
    opened.DeletionsShow steps ↔ opened.Deletionless steps := by
  refine ⟨?_, ?_⟩
  · intro shows old delete later split addr dooms
    have absent := shows (old ++ [.finalise delete]) later (by simp [split]) addr
      ⟨old, delete, [], rfl, dooms, by simp⟩
    rcases dooms with ⟨marked, obj, cached, -⟩
    have still : (opened.afterSteps (old ++ [.finalise delete])).objects addr =
        some (obj.finalised delete) := by
      rw [afterSteps, List.foldl_append]
      change ((opened.afterSteps old).finalise delete).objects addr = _
      rw [objects_finalise, if_pos marked, cached, map_some]
    simp [ledger, find, still] at absent
  · rintro none old later rfl addr ⟨front, delete, rest, rfl, dooms, -⟩
    exact absurd dooms (none front delete (rest ++ later) (by simp) addr)

/-- The codes that the steps set, and the root of the trie that is committed, are in play. -/
structure StepsAmong (codes : Set Bytes) (opened : OperationDB) (steps : List AccountStep)
    (deleteEmptyObjects : Bool) : Prop where
  code : ∀ address code, .setCode address code ∈ steps → code ∈ codes
  root_ne_zero : ∀ root middle, (opened.afterSteps steps).intermediateRoot deleteEmptyObjects =
    .ok (root, middle) → root ≠ 0
  root_empty : ∀ root middle, (opened.afterSteps steps).intermediateRoot deleteEmptyObjects =
    .ok (root, middle) → root = emptyRoot → middle.trie = fun _ => none

/-- Deletions show, and after a commit every account reads as before, exactly if no `Finalise`
of the run deletes an account and the commit finds every cached account fit to be written. -/
theorem accounts_reopened_iff {root : Hash} {database : Database}
    (opens : newOperationDb root database = some opened) (readable : opened.CodeReadable)
    (hashes : CodeHashes codes) (addressed : Addressed Crypto.keccak256 codes database.codes)
    {steps : List AccountStep} (among : StepsAmong codes opened steps deleteEmptyObjects) :
    ∃ committed after reopened,
      (opened.afterSteps steps).commit deleteEmptyObjects = .ok (.ok committed, after) ∧
      newOperationDb committed after.database = some reopened ∧ ((opened.DeletionsShow steps ∧
          ∀ address, SameAccount reopened (opened.afterSteps steps) address) ↔
        opened.Deletionless steps ∧
          ∀ address object, (opened.afterSteps steps).objects address = some object →
            (opened.afterSteps steps).Persistable deleteEmptyObjects address object) := by
  have same : opened.database = database := by
    rw [newOperationDb, Option.map_eq_some_iff] at opens
    rcases opens with ⟨trie, -, rfl⟩
    rfl
  rw [← same] at addressed
  have kept := AccountsKept.afterSteps opens readable addressed among.code
  rcases CellsKept.intermediateRoot kept deleteEmptyObjects
    fun _ _ cached => (kept.flush deleteEmptyObjects cached).1 with
    ⟨mid, rooted, -, framed, objects, records⟩
  have behind : mid.database = opened.database := by
    rw [framed.database, database_finalise, kept.database]
  have dirty := framed.dirty
  have ready : ∀ address ∈ mid.dirty, ∃ object, mid.objects address = some object ∧
      object.Layered ∧ object.Settled := by
    intro address mem
    rw [dirty, mem_dirty_finalise] at mem
    have present := kept.cached address (mem.imp_right And.left)
    rcases Option.isSome_iff_exists.mp present with ⟨object, cached⟩
    have free := (kept.free cached).congr object.data.nonce object.data.balance object.suicided
      (Gone (opened.afterSteps steps) deleteEmptyObjects address object)
    exact ⟨_, by rw [objects, cached, Option.map_some], free.layered, free.settled⟩
  have distinct : mid.dirty.Nodup := by
    rw [dirty]
    exact (kept.finalise deleteEmptyObjects).dirtyDistinct
  rcases commit_eq kept.clean rooted distinct ready with ⟨after, ran, stored⟩
  refine ⟨Crypto.accountRoot mid.trie, after, mid.reopened (Crypto.accountRoot mid.trie),
    ran, ?_, ?_⟩
  · rw [stored]
    exact newOperationDb_stored (among.root_ne_zero _ _ rooted) (among.root_empty _ _ rooted)
  rw [deletionsShow_iff]
  apply and_congr_right
  intro _
  refine ⟨?_, ?_⟩
  · intro reports address object cached
    exact (kept.sameAccount_iff_persistable readable hashes addressed behind dirty objects records
      _ cached).mp (reports address)
  · intro persistable address
    rcases cached : (opened.afterSteps steps).objects address with _ | object
    · exact kept.sameAccount_of_uncached readable hashes
        (kept.codes_stored hashes addressed behind objects _).1 records cached
    · exact (kept.sameAccount_iff_persistable readable hashes addressed behind dirty objects
        records _ cached).mpr (persistable address object cached)

end OperationDB

end

@[reducible]
def accountCrypto : Crypto :=
  { sampleCrypto with accountRoot := fun trie => if (trie 0x11).isSome then 1 else emptyRoot }

attribute [local instance] accountCrypto

theorem emptyState_opens : newOperationDb emptyRoot emptyDatabase = some emptyState := rfl

theorem emptyState_readable : emptyState.CodeReadable where
  funded _ _ found := by cases found
  coded _ _ found := by cases found

/-- An account that destructed itself reads as present after `Finalise`, and is
absent after the commit. -/
theorem destructed_account_reappears :
    ∃ root after reopened,
      emptyState.DeletedIn [.addBalance 0x11 5, .suicide 0x11, .finalise false] 0x11 ∧
      ((emptyState.afterSteps [.addBalance 0x11 5, .suicide 0x11, .finalise false]).exist
        0x11).1 = true ∧
      (emptyState.afterSteps [.addBalance 0x11 5, .suicide 0x11, .finalise false]).commit false =
        .ok (.ok root, after) ∧ newOperationDb root after.database = some reopened ∧
      (reopened.exist 0x11).1 = false := by
  refine ⟨_, _, _, ⟨[.addBalance 0x11 5, .suicide 0x11], false, [], rfl, ⟨?_, _, rfl, rfl⟩,
    by simp⟩, by decide +kernel, rfl, rfl, by decide +kernel⟩
  decide +kernel

def paidSteps : List AccountStep :=
  [.addBalance 0x11 5, .finalise true, .setCode 0x11 [1]]

def paidObject : OperationObject :=
  { OperationObject.blank.setBalance 200000005 with
    code := some [1]
    dirtyCode := true
    data := { nonce := 0, balance := 200000005, root := emptyRoot, codeHash := 1 } }

theorem objects_paidSteps : (emptyState.afterSteps paidSteps).objects =
      update (fun _ => none) 0x11 (some paidObject) := by
  have shape : ∃ created paid finalised, (emptyState.afterSteps paidSteps).objects =
      update (update (update (update (fun _ => none) 0x11
        created) 0x11 paid) 0x11 finalised) 0x11 (some paidObject) :=
    ⟨_, _, _, rfl⟩
  rcases shape with ⟨created, paid, finalised, same⟩
  rw [same, update_idem, update_idem, update_idem]

theorem deletionless_paidSteps : emptyState.Deletionless paidSteps := by
  rintro old delete later split addr ⟨-, _, cached, doomed⟩
  rcases old with _ | ⟨_, _ | ⟨_, _ | ⟨_, old⟩⟩⟩
  · cases split
  · cases split
    have shape : ∃ created, (emptyState.afterSteps [.addBalance 0x11 5]).objects =
        update (update (fun _ => none) 0x11 created) 0x11 (some (blank.setBalance 200000005)) :=
      ⟨_, rfl⟩
    rcases shape with ⟨created, same⟩
    rw [same, update_idem] at cached
    rcases update_eq_some cached with ⟨rfl, rfl⟩ | ⟨-, cached⟩
    · exact absurd doomed (by decide)
    · cases cached
  · cases split
  · simp [paidSteps] at split

theorem paid_account_persists :
    ∃ root after reopened, (emptyState.afterSteps paidSteps).commit true = .ok (.ok root, after) ∧
      newOperationDb root after.database = some reopened ∧ emptyState.DeletionsShow paidSteps ∧
      ∀ address, OperationDB.SameAccount reopened (emptyState.afterSteps paidSteps) address := by
  have hashes : CodeHashes {[], [1]} := by
    refine ⟨?_, by simp⟩
    intro _ mem _ other same
    rcases mem with rfl | rfl <;> rcases other with rfl | rfl
    · rfl
    · exact absurd same (by decide)
    · exact absurd same (by decide)
    · rfl
  have addressed : Addressed Crypto.keccak256 ({[], [1]} : Set Bytes) emptyDatabase.codes := by
    refine ⟨?_, ?_⟩ <;> intro key code found <;> cases found
  have among : OperationDB.StepsAmong {[], [1]} emptyState paidSteps true := by
    have computed : ∃ mid, (emptyState.afterSteps paidSteps).intermediateRoot true =
        .ok (1, mid) :=
      ⟨_, rfl⟩
    rcases computed with ⟨mid, rooted⟩
    refine ⟨?_, ?_, ?_⟩
    · intro address code mem
      simp [paidSteps] at mem
      simp [mem.2]
    · intro root other ran
      cases rooted.symm.trans ran
      decide
    · intro root other ran empty
      cases rooted.symm.trans ran
      exact absurd empty (by decide)
  rcases OperationDB.accounts_reopened_iff emptyState_opens emptyState_readable hashes addressed
    among with ⟨root, after, reopened, ran, opens, same⟩
  have persists := same.mpr ⟨deletionless_paidSteps, by
    intro address _ cached
    rw [objects_paidSteps] at cached
    rcases update_eq_some cached with ⟨rfl, rfl⟩ | ⟨-, cached⟩
    · refine ⟨rfl, fun _ => by decide, fun _ => by decide, fun unmarked _ => ?_⟩
      exact absurd (by decide +kernel) unmarked
    · cases cached⟩
  exact ⟨root, after, reopened, ran, opens, persists⟩

end Octopus
