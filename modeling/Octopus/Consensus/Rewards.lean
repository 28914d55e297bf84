import Mathlib.Algebra.Order.BigOperators.Group.List
import Mathlib.Algebra.Order.Ring.Int
import Octopus.Consensus.Octell
import Octopus.Transition.Unsettled

/-!
# What the rewards change

`accumulateRewards` credits one account after the other.  Account by account, the root is
that of the state without rewards if the record that is written does not show the credits.
-/

namespace Octopus

open OperationObject AccountCell

variable {obj : OperationObject} {addr : Address} {delete : Bool}
  {data : StateAccount}

def rewardsOf (config : ChainConfig) (header : Header) (uncles : List Header)
    (address : Address) : List Int :=
  ((rewards config header uncles).filter (·.1 = address)).map Prod.snd

variable {config : ChainConfig} {header : Header} {uncles : List Header}

theorem rewardsOf_ne_nil_iff :
    rewardsOf config header uncles addr ≠ [] ↔
      addr ∈ (rewards config header uncles).map Prod.fst := by
  simp [rewardsOf]

theorem blockReward_pos (config : ChainConfig) (number : Nat) : 32 ≤ blockReward config number := by
  unfold blockReward constantinopleBlockReward byzantiumBlockReward frontierBlockReward
  split
  · decide
  · split <;> decide

theorem uncleReward_pos {uncle : Header} (recent : header.number < uncle.number + 8) :
    0 < uncleReward config header uncle := by
  have reward := blockReward_pos config header.number
  have age : (1 : Int) ≤ (uncle.number : Int) + 8 - header.number := by omega
  have share : (8 : Int) ≤ ((uncle.number : Int) + 8 - header.number) *
      blockReward config header.number := by
    calc (8 : Int) ≤ 1 * blockReward config header.number := by omega
      _ ≤ _ := mul_le_mul_of_nonneg_right age (by omega)
  unfold uncleReward
  omega

theorem sum_rewardsOf_pos (recent : ∀ uncle ∈ uncles, header.number < uncle.number + 8)
    (rewarded : addr ∈ (rewards config header uncles).map Prod.fst) :
    0 < (rewardsOf config header uncles addr).sum := by
  refine List.sum_pos _ ?_ (rewardsOf_ne_nil_iff.mpr rewarded)
  intro _ mem
  rcases List.mem_map.mp mem with ⟨_, listed, rfl⟩
  rcases List.mem_append.mp (List.mem_of_mem_filter listed) with ofUncle | ofBlock
  · rcases List.mem_map.mp ofUncle with ⟨uncle, included, rfl⟩
    exact uncleReward_pos (recent uncle included)
  rw [List.mem_singleton] at ofBlock
  subst ofBlock
  have reward := blockReward_pos config header.number
  have share : 0 ≤ (uncles.length : Int) * (blockReward config header.number / 32) :=
    mul_nonneg (Int.natCast_nonneg _) (Int.ediv_nonneg (by omega) (by decide))
  omega

variable [Crypto]

namespace AccountCell

def found (cell : AccountCell) : Option OperationObject :=
  cell.object.or (cell.record.map .ofAccount)

/-- The cell after credits, in order.  A blank account is created for the first one if there is
none; the journal takes note of that and of every credit but zero. -/
def credited (cell : AccountCell) (amounts : List Int) : AccountCell :=
  let object := cell.found.getD .blank
  { cell with
    object := some (object.setBalance (object.data.balance + amounts.sum))
    dirtied := cell.dirtied || cell.found.isNone || amounts.any (· ≠ 0) }

variable (cell : AccountCell)

theorem credited_credited (front back : List Int) :
    (cell.credited front).credited back = cell.credited (front ++ back) := by
  simp [credited, found, OperationObject.setBalance, Bool.or_assoc, add_assoc]

theorem foldl_credited (front amounts : List Int) :
    amounts.foldl (fun cell amount => cell.credited [amount]) (cell.credited front) =
      cell.credited (front ++ amounts) := by
  induction amounts generalizing front with
  | nil => rw [List.append_nil, List.foldl_nil]
  | cons _ _ ih =>
    rw [List.foldl_cons, credited_credited, ih, List.append_assoc]
    rfl

/-- The record is the same with and without the credits: the account that they would create is
never written, or they are all zero, or the object is written as it is without them. -/
def Unseen (deleteEmptyObjects : Bool) (cell : AccountCell) (amounts : List Int) : Prop :=
  match cell.found with
  | none => amounts.sum < -200000000 ∨ deleteEmptyObjects = true ∧ amounts.sum = -200000000
  | some object =>
    (∀ amount ∈ amounts, amount = 0) ∨
      (object.setBalance (object.data.balance + amounts.sum)).settled deleteEmptyObjects
        cell.database cell.record = cell.settled deleteEmptyObjects

theorem settled_blank_eq_none_iff (delete : Bool) (disk : Database) (amount : Int) :
    (blank.setBalance (200000000 + amount)).settled delete disk none = none ↔
      amount < -200000000 ∨ delete = true ∧ amount = -200000000 := by
  have doomed : (blank.setBalance (200000000 + amount)).doomed delete =
      decide (delete = true ∧ amount = -200000000) := by
    have zero : ((200000000 + amount == 0) : Bool) = decide (amount = -200000000) := by
      rw [beq_eq_decide]
      congr 1
      exact propext ⟨by omega, by omega⟩
    simp [doomed, empty, OperationObject.setBalance, blank, zero]
  have balance : (blank.setBalance (200000000 + amount)).data.balance = 200000000 + amount := rfl
  have alive : (blank.setBalance (200000000 + amount)).deleted = false := rfl
  rw [OperationObject.settled, doomed, balance, alive, Bool.false_or]
  simp only [decide_eq_true_eq]
  split
  · next gone => exact ⟨fun _ => .inr gone, fun _ => rfl⟩
  · next wrote =>
    split
    · next overdrawn => exact ⟨fun _ => .inl (by omega), fun _ => rfl⟩
    · next covered =>
      refine ⟨fun impossible => absurd impossible (Option.some_ne_none _), ?_⟩
      rintro (negative | gone)
      · omega
      · exact absurd gone wrote

theorem settled_credited_iff {cell : AccountCell} (cached : cell.dirtied = true → cell.Cached)
    (delete : Bool) (amounts : List Int) :
    (cell.credited amounts).settled delete = cell.settled delete ↔ cell.Unseen delete amounts := by
  rcases found : cell.found with _ | obj
  · have absent : cell.object = none ∧ cell.record = none := by
      simpa [AccountCell.found] using found
    have old : cell.settled delete = none := by simp [settled, absent.1, absent.2]
    have new : (cell.credited amounts).settled delete =
        (blank.setBalance (200000000 + amounts.sum)).settled delete cell.database none := by
      simp only [settled, credited, found, absent.2]
      simp [blank]
    simp only [Unseen, found]
    rw [old, new, settled_blank_eq_none_iff]
  · have new : (cell.credited amounts).settled delete =
        if cell.dirtied || amounts.any (· ≠ 0) then
          (obj.setBalance (obj.data.balance + amounts.sum)).settled delete cell.database cell.record
        else cell.record := by
      simp only [settled, credited, found]
      simp
    simp only [Unseen, found]
    by_cases zero : ∀ amount ∈ amounts, amount = 0
    · have quiet : amounts.any (· ≠ 0) = false := by simpa using zero
      have same : obj.setBalance (obj.data.balance + amounts.sum) = obj := by
        rw [List.sum_eq_zero zero, add_zero]
        rfl
      refine iff_of_true ?_ (.inl zero)
      rw [new, quiet, same, Bool.or_false]
      rcases present : cell.object with _ | other
      · have clean : cell.dirtied = false := by
          by_contra dirty
          have cachedHere := cached (by simpa using dirty)
          simp [Cached, present] at cachedHere
        simp [settled, present, clean]
      · have here : other = obj := by simpa [AccountCell.found, present] using found
        simp [settled, present, here]
    · have paid : amounts.any (· ≠ 0) = true := by simpa using zero
      rw [new, paid, Bool.or_true, if_pos rfl, or_iff_right zero]

end AccountCell

theorem OperationObject.balance_settled {disk : Database} {old : Option StateAccount}
    (covered : 0 ≤ obj.data.balance)
    (wrote : obj.settled delete disk old = some data) : data.balance = obj.data.balance := by
  unfold settled at wrote
  split at wrote
  · cases wrote
  · split at wrote
    · omega
    · cases wrote
      exact obj.finalise.balance_updateRoot disk

theorem OperationObject.settled_of_suicided (suicided : obj.suicided = true)
    (delete : Bool) (disk : Database) (old : Option StateAccount) :
    obj.settled delete disk old = none := by
  simp [settled, doomed, suicided]

theorem OperationObject.settled_of_pos (obj : OperationObject)
    (alive : obj.suicided = false ∧ obj.deleted = false) (funded : 0 < obj.data.balance)
    (delete : Bool) (disk : Database) (old : Option StateAccount) :
    obj.settled delete disk old ≠ none := by
  have filled : (obj.data.balance == 0) = false := by
    rw [beq_eq_false_iff_ne]
    omega
  simp [settled, doomed, empty, alive, filled, not_lt.mpr funded.le]

namespace OperationDB

theorem cell_getOrNewOperationObject (db : OperationDB) (addr : Address) :
    ∃ new, db.getOrNewOperationObject addr = ((db.cell addr).found.getD .blank, new) ∧
      ∀ other, new.cell other =
        if other = addr then (db.cell addr).credited [] else db.cell other := by
  rcases cached : db.objects addr with _ | obj
  · rcases stored : db.trie addr with _ | data
    · refine ⟨db.record (.createObject addr) addr .blank, ?_, fun other => ?_⟩
      · simp [getOrNewOperationObject, getOperationObject, createObject, cell, AccountCell.found,
          cached, stored]
      · rw [cell_record rfl]
        simp [credited, AccountCell.found, cell, cached, stored, OperationObject.setBalance]
    refine ⟨db.setOperationObject addr (.ofAccount data), ?_, fun other => ?_⟩
    · simp [getOrNewOperationObject, getOperationObject, cell, AccountCell.found, cached, stored]
    · rw [cell_setOperationObject]
      simp [credited, AccountCell.found, cell, cached, stored, OperationObject.setBalance]
  · refine ⟨db, ?_, fun other => ?_⟩
    · simp [getOrNewOperationObject, getOperationObject, cell, AccountCell.found, cached]
    · split
      · next same =>
        subst same
        simp [credited, AccountCell.found, cell, cached, OperationObject.setBalance]
      · rfl

theorem cell_addBalance (db : OperationDB) (addr : Address) (amount : Int) (other : Address) :
    (db.addBalance addr amount).cell other =
      if other = addr then (db.cell addr).credited [amount] else db.cell other := by
  rcases db.cell_getOrNewOperationObject addr with ⟨_, looked, cells⟩
  simp only [addBalance, looked]
  split
  · next zero =>
    subst zero
    rw [cells]
    simp [credited]
  · next paid =>
    rw [setObjectBalance, cell_record rfl, cells, cells]
    split
    · simp [credited, paid]
    · rfl

theorem pointwise_addBalance :
    Library.Pointwise cell Prod.fst
      (fun (db : OperationDB) (credit : Address × Int) => db.addBalance credit.1 credit.2)
      (fun credit cell => cell.credited [credit.2]) where
  hit db credit := by rw [cell_addBalance, if_pos rfl]
  frame db credit other different := by rw [cell_addBalance, if_neg different]

end OperationDB

variable {db : OperationDB}

theorem cell_accumulateRewards (addr : Address) :
    (accumulateRewards config db header uncles).cell addr =
      if rewardsOf config header uncles addr = [] then db.cell addr
      else (db.cell addr).credited (rewardsOf config header uncles addr) := by
  have paid := OperationDB.pointwise_addBalance.foldl (rewards config header uncles) db addr
  rw [← List.foldl_map (f := Prod.snd)
    (g := fun (cell : AccountCell) amount => cell.credited [amount])] at paid
  rw [accumulateRewards, paid]
  change (rewardsOf config header uncles addr).foldl _ _ = _
  rcases rewardsOf config header uncles addr with _ | ⟨amount, _⟩
  · rfl
  · rw [List.foldl_cons, foldl_credited]
    rfl

theorem unsettled_accumulateRewards (unsettled : db.Unsettled) :
    (accumulateRewards config db header uncles).Unsettled := by
  refine List.foldlRecOn _ _ (motive := OperationDB.Unsettled) unsettled ?_
  intro _ kept credit _
  exact kept.addBalance credit.1 credit.2

def RewardsUnseen (config : ChainConfig) (header : Header) (uncles : List Header)
    (db : OperationDB) : Prop :=
  ∀ address ∈ (rewards config header uncles).map Prod.fst,
    (db.cell address).Unseen (config.isEIP158 header.number)
      (rewardsOf config header uncles address)

variable (unsettled : db.Unsettled)
include unsettled

theorem settled_accumulateRewards_iff :
    (accumulateRewards config db header uncles).settled (config.isEIP158 header.number) =
        db.settled (config.isEIP158 header.number) ↔ RewardsUnseen config header uncles db := by
  have cached : ∀ addr, (db.cell addr).dirtied = true → (db.cell addr).Cached := by
    intro addr dirty
    exact unsettled.cached addr (of_decide_eq_true dirty)
  constructor
  · intro same addr rewarded
    have here := congrFun same addr
    rw [OperationDB.settled, cell_accumulateRewards,
      if_neg (rewardsOf_ne_nil_iff.mpr rewarded)] at here
    exact (settled_credited_iff (cached addr) _ _).mp here
  · intro unseen
    funext addr
    rw [OperationDB.settled, cell_accumulateRewards]
    split
    · rfl
    · next rewarded =>
      exact (settled_credited_iff (cached addr) _ _).mpr
        (unseen addr (rewardsOf_ne_nil_iff.mp rewarded))

theorem balance_settled_cell (found : db.find addr = some obj)
    (covered : 0 ≤ obj.data.balance)
    (wrote : (db.cell addr).settled delete = some data) : data.balance = obj.data.balance := by
  have mirrored : db.trie addr = some data → addr ∉ db.journal.dirties →
      data.balance = obj.data.balance := by
    intro stored clean
    rcases (unsettled.found found).2 clean with ⟨-, other, same, balance⟩
    rw [stored] at same
    cases same
    exact balance.symm
  rcases cached : db.objects addr with _ | other
  · apply mirrored
    · simpa [AccountCell.settled, OperationDB.cell, cached] using wrote
    · intro dirty
      simpa [cached] using unsettled.cached addr dirty
  have here : other = obj := by simpa [OperationDB.find, cached] using found
  subst here
  by_cases dirty : addr ∈ db.journal.dirties
  · apply balance_settled covered
    simpa [AccountCell.settled, OperationDB.cell, cached, dirty] using wrote
  · apply mirrored _ dirty
    simpa [AccountCell.settled, OperationDB.cell, cached, dirty] using wrote

theorem settled_cell_of_suicided (found : db.find addr = some obj)
    (suicided : obj.suicided = true) (delete : Bool) : (db.cell addr).settled delete = none := by
  have dirty : addr ∈ db.journal.dirties := by
    by_contra clean
    have unmarked := ((unsettled.found found).2 clean).1
    rw [suicided] at unmarked
    cases unmarked
  rcases Option.isSome_iff_exists.mp (unsettled.cached addr dirty) with ⟨other, cached⟩
  have here : other = obj := by simpa [OperationDB.find, cached] using found
  simp [AccountCell.settled, OperationDB.cell, cached, dirty, here, settled_of_suicided suicided]

theorem settled_setBalance_ne (found : db.find addr = some obj)
    (alive : obj.suicided = false) (covered : 0 ≤ obj.data.balance) {amount : Int}
    (positive : 0 < amount) (delete : Bool) :
    (obj.setBalance (obj.data.balance + amount)).settled delete
        (db.cell addr).database (db.cell addr).record ≠ (db.cell addr).settled delete := by
  intro same
  have balance : (obj.setBalance (obj.data.balance + amount)).data.balance =
      obj.data.balance + amount := rfl
  have wrote := (obj.setBalance (obj.data.balance + amount)).settled_of_pos
    ⟨alive, (unsettled.found found).1⟩ (by omega) delete
    (db.cell addr).database (db.cell addr).record
  rcases Option.ne_none_iff_exists'.mp wrote with ⟨data, wrote⟩
  have raised := balance_settled (by omega) wrote
  have kept := balance_settled_cell unsettled found covered (same.symm.trans wrote)
  omega

/-- A positive reward shows in every account that was not overdrawn, except in
one that has destroyed itself. -/
theorem unseen_iff_suicided {amounts : List Int} (positive : 0 < amounts.sum)
    (covered : ∀ obj, db.find addr = some obj → 0 ≤ obj.data.balance)
    (delete : Bool) : (db.cell addr).Unseen delete amounts ↔
      ∃ obj, db.find addr = some obj ∧ obj.suicided = true := by
  have sameFound : (db.cell addr).found = db.find addr := rfl
  rcases found : db.find addr with _ | obj
  · simp only [AccountCell.Unseen, sameFound, found]
    constructor
    · rintro (negative | ⟨-, negative⟩) <;> omega
    · rintro ⟨obj, impossible, -⟩
      cases impossible
  have paid : ¬∀ amount ∈ amounts, amount = 0 := by
    intro zero
    rw [List.sum_eq_zero zero] at positive
    exact absurd positive (lt_irrefl _)
  simp only [AccountCell.Unseen, sameFound, found, or_iff_right paid]
  cases suicided : obj.suicided with
  | true =>
    have destroyed : (obj.setBalance (obj.data.balance + amounts.sum)).suicided = true :=
      suicided
    refine iff_of_true ?_ ⟨obj, rfl, suicided⟩
    rw [settled_of_suicided destroyed, settled_cell_of_suicided unsettled found suicided]
  | false =>
    refine iff_of_false ?_ ?_
    · exact settled_setBalance_ne unsettled found suicided (covered obj found) positive _
    · rintro ⟨_, same, destroyed⟩
      cases same
      rw [suicided] at destroyed
      cases destroyed

end Octopus
