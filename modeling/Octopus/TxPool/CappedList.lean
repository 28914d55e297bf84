import Octopus.TxPool.Pool

/-!
# The caps of a list of transactions

`Filter` returns at once if its limits are not below the caps of the list.  Nothing lowers
the caps when a transaction leaves; they stay bounds on what is listed.
-/

namespace Octopus

/-- `txList`.  The heap of the nonces and the cache of the sorted list follow the
transactions. -/
structure CappedList where
  strict : Bool
  txs : List PoolTx := []
  costcap : Int := 0
  gascap : Nat := 0

namespace CappedList

def exceeds (costLimit : Int) (gasLimit : Nat) (tx : PoolTx) : Bool :=
  gasLimit < tx.gas || costLimit < tx.cost

def add (list : CappedList) (tx : PoolTx) (priceBump : Nat) : CappedList :=
  match TxList.add list.txs tx priceBump with
  | none => list
  | some (txs, _) =>
    { list with txs, costcap := max list.costcap tx.cost, gascap := max list.gascap tx.gas }

/-- `Forward`, without the transactions that it returns. -/
def forward (list : CappedList) (threshold : Nat) : CappedList :=
  { list with txs := list.txs.filter fun tx => threshold ≤ tx.nonce }

def cap (list : CappedList) (threshold : Nat) : CappedList :=
  if list.txs.length ≤ threshold then list
  else { list with
    txs := (list.txs.mergeSort fun first second => first.nonce ≤ second.nonce).take threshold }

def remove (list : CappedList) (tx : PoolTx) : CappedList :=
  if (TxList.get list.txs tx.nonce).isNone then list
  else if list.strict then { list with txs := (TxList.removeStrict list.txs tx).1 }
  else { list with txs := list.txs.filter fun other => other.nonce ≠ tx.nonce }

/-- `Filter` behind its shortcut: the removed transactions, those that are invalid
without them, and the list. -/
def scan (list : CappedList) (costLimit : Int) (gasLimit : Nat) :
    (List PoolTx × List PoolTx) × CappedList :=
  let removed := list.txs.filter (exceeds costLimit gasLimit)
  let txs := list.txs.filter fun tx => !exceeds costLimit gasLimit tx
  let list := { list with costcap := costLimit, gascap := gasLimit }
  if removed = [] then (([], []), list)
  else if list.strict then
    let lowest := removed.foldl (fun lowest tx => min lowest tx.nonce) (2 ^ 64 - 1)
    ((removed, txs.filter fun tx => lowest < tx.nonce),
      { list with txs := txs.filter fun tx => ¬ lowest < tx.nonce })
  else ((removed, []), { list with txs })

def filter (list : CappedList) (costLimit : Int) (gasLimit : Nat) :
    (List PoolTx × List PoolTx) × CappedList :=
  if list.costcap ≤ costLimit ∧ list.gascap ≤ gasLimit then (([], []), list)
  else list.scan costLimit gasLimit

inductive Call where
  | add (tx : PoolTx) (priceBump : Nat)
  | forward (threshold : Nat)
  | filter (costLimit : Int) (gasLimit : Nat)
  | cap (threshold : Nat)
  | remove (tx : PoolTx)

def perform (list : CappedList) : Call → CappedList
  | .add tx priceBump => list.add tx priceBump
  | .forward threshold => list.forward threshold
  | .filter costLimit gasLimit => (list.filter costLimit gasLimit).2
  | .cap threshold => list.cap threshold
  | .remove tx => list.remove tx

def Capped (list : CappedList) : Prop :=
  ∀ tx ∈ list.txs, tx.cost ≤ list.costcap ∧ tx.gas ≤ list.gascap

theorem Capped.of_subset {list : CappedList} (capped : list.Capped) {txs : List PoolTx}
    (fewer : txs ⊆ list.txs) : { list with txs }.Capped :=
  fun tx listed => capped tx (fewer listed)

theorem txs_scan (list : CappedList) (costLimit : Int) (gasLimit : Nat) :
    (list.scan costLimit gasLimit).2.txs ⊆
      list.txs.filter fun tx => !exceeds costLimit gasLimit tx := by
  simp only [scan]
  split_ifs with nothing
  · intro tx listed
    simp only [List.filter_eq_nil_iff] at nothing
    simp [listed, nothing tx listed]
  · exact List.filter_subset_self _
  · exact List.Subset.refl _

theorem capped_scan (list : CappedList) (costLimit : Int) (gasLimit : Nat) :
    (list.scan costLimit gasLimit).2.Capped := by
  have caps : (list.scan costLimit gasLimit).2.costcap = costLimit ∧
      (list.scan costLimit gasLimit).2.gascap = gasLimit := by
    simp only [scan]
    split_ifs <;> exact ⟨rfl, rfl⟩
  intro tx listed
  have within := txs_scan list costLimit gasLimit listed
  simp only [List.mem_filter, exceeds, Bool.not_eq_true', Bool.or_eq_false_iff,
    decide_eq_false_iff_not, not_lt] at within
  rw [caps.1, caps.2]
  exact within.2.symm

theorem Capped.perform {list : CappedList} (capped : list.Capped) (call : Call) :
    (list.perform call).Capped := by
  cases call with
  | add tx priceBump =>
    simp only [CappedList.perform, CappedList.add]
    split
    · exact capped
    · next txs _ added =>
      have listed : ∀ other ∈ txs, other = tx ∨ other ∈ list.txs := by
        simp only [TxList.add] at added
        split at added
        · cases added
          simp
        · split_ifs at added
          cases added
          simp +contextual
      intro other mem
      rcases listed other mem with rfl | before
      · exact ⟨le_max_right _ _, le_max_right _ _⟩
      · rcases capped other before with ⟨cost, gas⟩
        exact ⟨le_max_of_le_left cost, le_max_of_le_left gas⟩
  | forward threshold => exact capped.of_subset (List.filter_subset_self _)
  | filter costLimit gasLimit =>
    simp only [CappedList.perform, CappedList.filter]
    split
    · exact capped
    · exact capped_scan list costLimit gasLimit
  | cap threshold =>
    simp only [CappedList.perform, CappedList.cap]
    split
    · exact capped
    · exact capped.of_subset fun tx listed => List.mem_mergeSort.mp (List.mem_of_mem_take listed)
  | remove tx =>
    simp only [CappedList.perform, CappedList.remove]
    split_ifs
    · exact capped
    · exact capped.of_subset fun other listed =>
        List.mem_of_mem_filter (List.mem_of_mem_filter listed)
    · exact capped.of_subset (List.filter_subset_self _)

theorem lowest_eq {removed : List PoolTx} {first : PoolTx} {start : Nat}
    (lowest : ∀ tx ∈ removed, first.nonce ≤ tx.nonce) (below : first.nonce ≤ start)
    (reached : first ∈ removed ∨ start = first.nonce) :
    removed.foldl (fun lowest tx => min lowest tx.nonce) start = first.nonce := by
  induction removed generalizing start with
  | nil => simpa using reached
  | cons tx rest ih =>
    simp only [List.mem_cons, forall_eq_or_imp] at lowest reached
    refine ih lowest.2 (le_min below lowest.1) ?_
    rcases reached with (rfl | later) | rfl
    · exact .inr (min_eq_right below)
    · exact .inl later
    · exact .inr (min_eq_left lowest.1)

theorem strict_perform (list : CappedList) (call : Call) :
    (list.perform call).strict = list.strict := by
  cases call with
  | add tx priceBump => grind [perform, add]
  | forward threshold => rfl
  | filter costLimit gasLimit => grind [perform, filter, scan]
  | cap threshold => grind [perform, cap]
  | remove tx => grind [perform, remove]

/-- After any calls on a new list, `Filter` does what a scan of the whole list does: it removes
what exceeds the limits, and in strict mode invalidates those of the rest whose nonce is
above the lowest that was removed. -/
theorem filter_eq_scan (strict : Bool) (calls : List Call) (costLimit : Int) (gasLimit : Nat) :
    let list := calls.foldl perform { strict }
    let result := list.filter costLimit gasLimit
    result.1 = (list.scan costLimit gasLimit).1 ∧
    result.2.txs = (list.scan costLimit gasLimit).2.txs ∧
    result.1.1 = list.txs.filter (exceeds costLimit gasLimit) ∧
    (result.1.1 = [] → result.1.2 = []) ∧
    (strict = true → ∀ first ∈ result.1.1, (∀ tx ∈ result.1.1, first.nonce ≤ tx.nonce) →
      result.1.2 = (list.txs.filter fun tx => !exceeds costLimit gasLimit tx).filter
        fun tx => first.nonce < tx.nonce) := by
  intro list result
  have capped : list.Capped := by
    refine List.foldlRecOn _ _ (motive := Capped) (by simp [Capped]) ?_
    exact fun list capped call _ => capped.perform call
  have mode : list.strict = strict := by
    refine List.foldlRecOn _ _ (motive := (CappedList.strict · = strict)) rfl ?_
    exact fun list same call _ => (list.strict_perform call).trans same
  have same : result.1 = (list.scan costLimit gasLimit).1 ∧
      result.2.txs = (list.scan costLimit gasLimit).2.txs := by
    simp only [result, filter]
    split
    · next below =>
      have nothing : list.txs.filter (exceeds costLimit gasLimit) = [] := by
        rw [List.filter_eq_nil_iff]
        intro tx listed
        rcases capped tx listed with ⟨cost, gas⟩
        simp [exceeds, gas.trans below.2, cost.trans below.1]
      simp [scan, nothing]
    · exact ⟨rfl, rfl⟩
  rw [same.2, same.1]
  refine ⟨rfl, rfl, ?_⟩
  simp only [scan]
  split_ifs with nothing lax
  · simp [nothing]
  · refine ⟨rfl, fun empty => absurd empty nothing, fun _ first mem lowest => ?_⟩
    rw [lowest_eq lowest (Nat.le_sub_one_of_lt first.inner.nonce.isLt) (.inl mem)]
  · exact ⟨rfl, fun _ => rfl, fun isStrict => absurd (mode.trans isStrict) lax⟩

end CappedList

end Octopus
