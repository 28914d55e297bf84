import Octopus.Entity.Envelope
import Octopus.Transition.StateTransition

/-!
# The transaction pool

The lookup table with its count of slots, the two heaps ordered by price, the lists of
pending and queued transactions, and `add`.  Where the source ranges over a map in an order
that Go leaves open, or pops one of several equal entries, the model takes the first one.

`addTxs` first refuses transactions that are known or not signed, then adds the rest in
order.  The errors of the second pass go to the slots that the first one has left nil, so
every transaction gets its own verdict.
-/

namespace Octopus

open Rlp

inductive PoolError where
  | alreadyKnown
  | invalidSender
  | underpriced
  | txPoolOverflow
  | replaceUnderpriced
  | queueUnderpriced
  | txTypeNotSupported
  | oversizedData
  | negativeValue
  | gasLimit
  | feeCapVeryHigh
  | tipVeryHigh
  | tipAboveFeeCap
  | nonceTooLow
  | insufficientFunds
  | intrinsicGas
  | gasUintOverflow
  deriving DecidableEq

structure PoolTx where
  inner : TxData
  recorded : Option Nat := none
  deriving DecidableEq

def txSlotSize : Nat := 32 * 1024

def txMaxSize : Nat := 4 * txSlotSize

namespace PoolTx

/-- `Size`.  Only a size that was recorded at decoding is known; nothing counts the bytes. -/
def size (tx : PoolTx) : Nat :=
  tx.recorded.getD 0

def numSlots (tx : PoolTx) : Nat :=
  (tx.size + txSlotSize - 1) / txSlotSize

def hash [Crypto] (tx : PoolTx) : Hash :=
  tx.inner.hash

def nonce (tx : PoolTx) : Nat :=
  tx.inner.nonce.toNat

def gasFeeCap (tx : PoolTx) : Int :=
  match tx.inner with
  | .legacy tx => tx.gasPrice
  | .dynamicFee tx => tx.gasFeeCap

def gasTipCap (tx : PoolTx) : Int :=
  match tx.inner with
  | .legacy tx => tx.gasPrice
  | .dynamicFee tx => tx.gasTipCap

def gas (tx : PoolTx) : Nat :=
  match tx.inner with
  | .legacy tx => tx.gas.toNat
  | .dynamicFee tx => tx.gas.toNat

def value (tx : PoolTx) : Int :=
  match tx.inner with
  | .legacy tx => tx.value
  | .dynamicFee tx => tx.value

/-- `Cost`; the gas price of a dynamic fee transaction is its fee cap. -/
def cost (tx : PoolTx) : Int :=
  tx.gasFeeCap * tx.gas + tx.value

def less (first second : PoolTx) : Bool :=
  if first.gasFeeCap ≠ second.gasFeeCap then first.gasFeeCap < second.gasFeeCap
  else if first.gasTipCap ≠ second.gasTipCap then first.gasTipCap < second.gasTipCap
  else second.nonce < first.nonce

def atLeast (first second : PoolTx) : Bool :=
  if first.gasFeeCap ≠ second.gasFeeCap then second.gasFeeCap < first.gasFeeCap
  else second.gasTipCap ≤ first.gasTipCap

theorem numSlots_pos_iff (tx : PoolTx) : 1 ≤ tx.numSlots ↔ 1 ≤ tx.size := by
  simp only [numSlots, txSlotSize]
  omega

end PoolTx

variable [Crypto]

structure TxLookup where
  slots : Int := 0
  locals : List PoolTx := []
  remotes : List PoolTx := []

namespace TxLookup

def all (lookup : TxLookup) : List PoolTx :=
  lookup.locals ++ lookup.remotes

def get (lookup : TxLookup) (hash : Hash) : Option PoolTx :=
  lookup.all.find? fun tx => tx.hash = hash

def getRemote (lookup : TxLookup) (hash : Hash) : Option PoolTx :=
  lookup.remotes.find? fun tx => tx.hash = hash

def remove (lookup : TxLookup) (hash : Hash) : TxLookup :=
  match lookup.get hash with
  | none => lookup
  | some tx =>
    { slots := lookup.slots - tx.numSlots
      locals := lookup.locals.filter fun other => other.hash ≠ hash
      remotes := lookup.remotes.filter fun other => other.hash ≠ hash }

def add (lookup : TxLookup) (tx : PoolTx) (isLocal : Bool) : TxLookup :=
  if isLocal then
    { lookup with
      slots := lookup.slots + tx.numSlots
      locals := tx :: lookup.locals.filter fun other => other.hash ≠ tx.hash }
  else
    { lookup with
      slots := lookup.slots + tx.numSlots
      remotes := tx :: lookup.remotes.filter fun other => other.hash ≠ tx.hash }

/-- `RemoteToLocals`, with the number of transactions that are migrated. -/
def remoteToLocals (lookup : TxLookup) (containsTx : PoolTx → Bool) : Nat × TxLookup :=
  ((lookup.remotes.filter containsTx).length,
    { lookup with
      locals := lookup.remotes.filter containsTx ++ lookup.locals
      remotes := lookup.remotes.filter fun tx => !containsTx tx })

end TxLookup

def popWorst : List PoolTx → Option (PoolTx × List PoolTx)
  | [] => none
  | tx :: rest =>
    match popWorst rest with
    | none => some (tx, [])
    | some (worst, others) => if worst.less tx then some (worst, tx :: others) else some (tx, rest)

section

variable {heap others : List PoolTx} {worst : PoolTx}
  (popped : popWorst heap = some (worst, others))
include popped

omit [Crypto] in
theorem popWorst_perm : (worst :: others).Perm heap := by
  induction heap generalizing worst others with
  | nil => cases popped
  | cons tx rest ih =>
    rcases inner : popWorst rest with _ | ⟨_, remaining⟩
    · simp only [popWorst, inner] at popped
      cases popped
      rcases rest with _ | ⟨_, rest⟩
      · exact .refl _
      · simp only [popWorst] at inner
        split at inner
        · cases inner
        · split_ifs at inner
    · simp only [popWorst, inner] at popped
      split_ifs at popped
      · cases popped
        exact (List.Perm.swap tx worst remaining).trans ((ih inner).cons tx)
      · cases popped
        exact .refl _

omit [Crypto] in
theorem length_popWorst : heap.length = others.length + 1 := by
  rw [← (popWorst_perm popped).length_eq, List.length_cons]

end

def popHeap : Nat → List PoolTx → List PoolTx × List PoolTx
  | 0, heap => ([], heap)
  | count + 1, heap =>
    match popWorst heap with
    | none => ([], heap)
    | some (worst, others) => (worst :: (popHeap count others).1, (popHeap count others).2)

/-- `txPricedList`, without the pointer to the lookup table. -/
structure PricedList where
  stales : Int := 0
  urgent : List PoolTx := []
  floating : List PoolTx := []

namespace PricedList

def urgentRatio : Nat := 4

def floatingRatio : Nat := 1

def entries (priced : PricedList) : List PoolTx :=
  priced.urgent ++ priced.floating

def reheap (lookup : TxLookup) : PricedList :=
  let count := lookup.remotes.length * floatingRatio / (urgentRatio + floatingRatio)
  { stales := 0
    urgent := (popHeap count lookup.remotes).2
    floating := (popHeap count lookup.remotes).1 }

def removed (priced : PricedList) (lookup : TxLookup) (count : Nat) : PricedList :=
  let stales := priced.stales + count
  if stales ≤ (priced.entries.length / 4 : Nat) then { priced with stales }
  else reheap lookup

def put (priced : PricedList) (tx : PoolTx) (isLocal : Bool) : PricedList :=
  if isLocal then priced else { priced with urgent := tx :: priced.urgent }

/-- The loop of `underpricedFor`: stale entries are popped off the front. -/
def popStale (lookup : TxLookup) (stales : Int) (heap : List PoolTx) : Int × List PoolTx :=
  match popped : popWorst heap with
  | none => (stales, heap)
  | some (worst, others) =>
    if lookup.getRemote worst.hash = none then popStale lookup (stales - 1) others
    else (stales, heap)
termination_by heap.length
decreasing_by
  have := length_popWorst popped
  omega

def worstAtLeast (heap : List PoolTx) (tx : PoolTx) : Bool :=
  match popWorst heap with
  | none => false
  | some (worst, _) => worst.atLeast tx

/-- `Underpriced`.  The floating heap is only looked at if the urgent one does not
decide. -/
def underpriced (priced : PricedList) (lookup : TxLookup) (tx : PoolTx) : Bool × PricedList :=
  let (stales, urgent) := popStale lookup priced.stales priced.urgent
  if worstAtLeast urgent tx || urgent.isEmpty then
    let (stales, floating) := popStale lookup stales priced.floating
    ((worstAtLeast floating tx || floating.isEmpty) && (!urgent.isEmpty || !floating.isEmpty),
      { stales, urgent, floating })
  else (false, { priced with stales, urgent })

def discardLoop (lookup : TxLookup) (needed : Int) (drop : List PoolTx) (priced : PricedList) :
    Int × List PoolTx × PricedList :=
  if needed ≤ 0 then (needed, drop, priced)
  else if priced.floating.length * urgentRatio < priced.urgent.length * floatingRatio then
    match _popped : popWorst priced.urgent with
    | none => (needed, drop, priced)
    | some (tx, urgent) =>
      if lookup.getRemote tx.hash = none then
        discardLoop lookup needed drop { priced with stales := priced.stales - 1, urgent }
      else discardLoop lookup needed drop { priced with urgent, floating := tx :: priced.floating }
  else
    match _popped : popWorst priced.floating with
    | none => (needed, drop, priced)
    | some (tx, floating) =>
      if lookup.getRemote tx.hash = none then
        discardLoop lookup needed drop { priced with stales := priced.stales - 1, floating }
      else discardLoop lookup (needed - tx.numSlots) (drop ++ [tx]) { priced with floating }
termination_by 2 * priced.urgent.length + priced.floating.length
decreasing_by
  · have shorter := length_popWorst _popped
    omega
  · have shorter := length_popWorst _popped
    rw [List.length_cons]
    omega
  · have shorter := length_popWorst _popped
    omega
  · have shorter := length_popWorst _popped
    omega

/-- `Discard`; `none` if there is not enough to discard. -/
def discard (priced : PricedList) (lookup : TxLookup) (needed : Int) (force : Bool) :
    Option (List PoolTx) × PricedList :=
  let (left, drop, after) := discardLoop lookup needed [] priced
  if 0 < left ∧ force = false then (none, { after with urgent := drop ++ after.urgent })
  else (some drop, after)

end PricedList

structure PoolConfig where
  globalSlots : Nat
  globalQueue : Nat
  priceBump : Nat

def PoolConfig.capacity (config : PoolConfig) : Nat :=
  (config.globalSlots + config.globalQueue) % 2 ^ 64

omit [Crypto] in
theorem PoolConfig.capacity_le (config : PoolConfig) :
    config.capacity ≤ config.globalSlots + config.globalQueue :=
  Nat.mod_le _ _

structure PoolView where
  eip2718 : Bool
  eip1559 : Bool
  currentMaxGas : Nat
  gasPrice : Int
  sender : TxData → Option Address
  nonceOf : Address → Nat
  balanceOf : Address → Int

/-- `TxPool`, with the lists of pending and queued transactions by sender. -/
structure TxPool where
  config : PoolConfig
  locals : List Address := []
  all : TxLookup := {}
  priced : PricedList := {}
  pending : Address → List PoolTx := fun _ => []
  queue : Address → List PoolTx := fun _ => []
  changesSinceReorg : Nat := 0

def PoolView.owner (view : PoolView) (tx : PoolTx) : Address :=
  (view.sender tx.inner).getD 0

def validateTx (view : PoolView) (tx : PoolTx) (isLocal : Bool) : Option PoolError :=
  if !view.eip2718 ∧ tx.inner.txType ≠ legacyTxType then some .txTypeNotSupported
  else if !view.eip1559 ∧ tx.inner.txType = dynamicFeeTxType then some .txTypeNotSupported
  else if txMaxSize < tx.size then some .oversizedData
  else if tx.value < 0 then some .negativeValue
  else if view.currentMaxGas < tx.gas then some .gasLimit
  else if 256 < bitLen tx.gasFeeCap.natAbs then some .feeCapVeryHigh
  else if 256 < bitLen tx.gasTipCap.natAbs then some .tipVeryHigh
  else if tx.gasFeeCap < tx.gasTipCap then some .tipAboveFeeCap
  else
    match view.sender tx.inner with
    | none => some .invalidSender
    | some owner =>
      if !isLocal ∧ tx.gasTipCap < view.gasPrice then some .underpriced
      else if tx.nonce < view.nonceOf owner then some .nonceTooLow
      else if view.balanceOf owner < tx.cost then some .insufficientFunds
      else
        match intrinsicGas tx.inner.data with
        | .error _ => some .gasUintOverflow
        | .ok gas => if tx.gas < gas then some .intrinsicGas else none

namespace TxList

def get (list : List PoolTx) (nonce : Nat) : Option PoolTx :=
  list.find? fun tx => tx.nonce = nonce

def outbids (priceBump : Nat) (tx old : PoolTx) : Bool :=
  old.gasFeeCap < tx.gasFeeCap && old.gasTipCap < tx.gasTipCap &&
    (100 + priceBump) * old.gasFeeCap / 100 ≤ tx.gasFeeCap &&
    (100 + priceBump) * old.gasTipCap / 100 ≤ tx.gasTipCap

/-- `Add`: the list with the transaction and the one that it replaces, or nothing
if the old one is better. -/
def add (list : List PoolTx) (tx : PoolTx) (priceBump : Nat) :
    Option (List PoolTx × Option PoolTx) :=
  match get list tx.nonce with
  | none => some (tx :: list, none)
  | some old =>
    if outbids priceBump tx old then
      some (tx :: list.filter fun other => other.nonce ≠ tx.nonce, some old)
    else none

/-- `Remove` of a strict list: the list, and those that cannot be executed any
more. -/
def removeStrict (list : List PoolTx) (tx : PoolTx) : List PoolTx × List PoolTx :=
  let rest := list.filter fun other => other.nonce ≠ tx.nonce
  (rest.filter fun other => ¬ tx.nonce < other.nonce,
    rest.filter fun other => tx.nonce < other.nonce)

end TxList

namespace TxPool

def replace (pool : TxPool) (old : Option PoolTx) : TxPool :=
  match old with
  | none => pool
  | some old =>
    let all := pool.all.remove old.hash
    { pool with all, priced := pool.priced.removed all 1 }

def track (pool : TxPool) (tx : PoolTx) (isLocal : Bool) : TxPool :=
  { pool with all := pool.all.add tx isLocal, priced := pool.priced.put tx isLocal }

/-- `enqueueTx`.  Its error has the text of `ErrReplaceUnderpriced`, but is not equal to it. -/
def enqueueTx (view : PoolView) (pool : TxPool) (tx : PoolTx) (isLocal addAll : Bool) :
    Except PoolError Bool × TxPool :=
  match TxList.add (pool.queue (view.owner tx)) tx pool.config.priceBump with
  | none => (.error .queueUnderpriced, pool)
  | some (list, old) =>
    let after := ({ pool with
      queue := Function.update pool.queue (view.owner tx) list } : TxPool).replace old
    (.ok old.isSome, if addAll then after.track tx isLocal else after)

def requeue (view : PoolView) : TxPool → List PoolTx → TxPool
  | pool, [] => pool
  | pool, tx :: txs => requeue view (enqueueTx view pool tx false false).2 txs

def removeTx (view : PoolView) (pool : TxPool) (hash : Hash) : TxPool :=
  match pool.all.get hash with
  | none => pool
  | some tx =>
    let owner := view.owner tx
    let after := { pool with all := pool.all.remove hash }
    if TxList.get (pool.pending owner) tx.nonce ≠ none then
      let (kept, invalids) := TxList.removeStrict (pool.pending owner) tx
      requeue view { after with pending := Function.update pool.pending owner kept } invalids
    else
      { after with
        queue := Function.update pool.queue owner
          ((pool.queue owner).filter fun other => other.nonce ≠ tx.nonce) }

def removeAll (view : PoolView) : TxPool → List PoolTx → TxPool
  | pool, [] => pool
  | pool, tx :: txs => removeAll view (removeTx view pool tx.hash) txs

/-- The part of `add` for a full pool, which drops the cheapest remote transactions. -/
def makeRoom (view : PoolView) (pool : TxPool) (tx : PoolTx) (isLocal : Bool) :
    Except PoolError Unit × TxPool :=
  if pool.all.slots + tx.numSlots ≤ pool.config.capacity then (.ok (), pool)
  else
    -- the question is put only for a remote transaction, and it cleans the heaps
    let (isUnderpriced, priced) :=
      if isLocal then (false, pool.priced) else pool.priced.underpriced pool.all tx
    let pool := { pool with priced }
    if isUnderpriced then (.error .underpriced, pool)
    else if pool.config.globalSlots / 4 < pool.changesSinceReorg then (.error .txPoolOverflow, pool)
    else
      match pool.priced.discard pool.all
          (pool.all.slots - pool.config.capacity + tx.numSlots) isLocal with
      | (none, priced) => (.error .txPoolOverflow, { pool with priced })
      | (some drop, priced) =>
        (.ok (), removeAll view { pool with
          priced, changesSinceReorg := pool.changesSinceReorg + drop.length } drop)

/-- The part of `add` that replaces a pending transaction or pushes the new one into
the queue. -/
def file (view : PoolView) (pool : TxPool) (tx : PoolTx) (isLocal : Bool) :
    Except PoolError Bool × TxPool :=
  let owner := view.owner tx
  if TxList.get (pool.pending owner) tx.nonce ≠ none then
    match TxList.add (pool.pending owner) tx pool.config.priceBump with
    | none => (.error .replaceUnderpriced, pool)
    | some (list, old) =>
      (.ok old.isSome, (({ pool with
        pending := Function.update pool.pending owner list } : TxPool).replace old).track
          tx isLocal)
  else enqueueTx view pool tx isLocal true

/-- The part of `add` that marks a sender as local and migrates its transactions. -/
def adopt (view : PoolView) (pool : TxPool) (owner : Address) : TxPool :=
  let locals := owner :: pool.locals
  let (migrated, all) := pool.all.remoteToLocals fun tx => decide (view.owner tx ∈ locals)
  { pool with locals, all, priced := pool.priced.removed all migrated }

/-- `add`: check the transaction, make room for it and file it. -/
def add (view : PoolView) (fromLocal : Bool) (pool : TxPool) (tx : PoolTx) :
    Except PoolError Bool × TxPool :=
  if pool.all.get tx.hash ≠ none then (.error .alreadyKnown, pool)
  else
    let owner := view.owner tx
    let isLocal := fromLocal || decide (owner ∈ pool.locals)
    match validateTx view tx isLocal with
    | some error => (.error error, pool)
    | none =>
      match makeRoom view pool tx isLocal with
      | (.error error, pool) => (.error error, pool)
      | (.ok (), pool) =>
        let (result, after) := file view pool tx isLocal
        -- a transaction that replaces a pending one returns before this point
        let queued := TxList.get (pool.pending owner) tx.nonce = none
        (result, if fromLocal ∧ queued ∧ result.isOk ∧ owner ∉ pool.locals then
          after.adopt view owner else after)

def errorOf (result : Except PoolError Bool) : Option PoolError :=
  match result with
  | .error error => some error
  | .ok _ => none

def addTxsLocked (view : PoolView) (fromLocal : Bool) :
    TxPool → List PoolTx → List (Option PoolError) × TxPool
  | pool, [] => ([], pool)
  | pool, tx :: txs =>
    let (result, pool) := add view fromLocal pool tx
    let (errs, pool) := addTxsLocked view fromLocal pool txs
    (errorOf result :: errs, pool)

/-- The first pass of `addTxs`, which refuses what is known or not signed. -/
def screen (view : PoolView) (pool : TxPool) (tx : PoolTx) : Option PoolError :=
  if pool.all.get tx.hash ≠ none then some .alreadyKnown
  else if view.sender tx.inner = none then some .invalidSender
  else none

/-- The pool that `AddRemotes` leaves. -/
def addRemotes (view : PoolView) (pool : TxPool) (txs : List PoolTx) : TxPool :=
  (addTxsLocked view false pool (txs.filter fun tx => screen view pool tx = none)).2

/-- A call from a peer, and what a reorganisation consists of: it drops transactions, tells the
heaps of stale entries, rearranges the lists, and offers transactions again. -/
inductive PoolCall where
  | addRemotes (view : PoolView) (txs : List PoolTx)
  | reinject (view : PoolView) (txs : List PoolTx)
  | drop (hash : Hash)
  | removed (count : Nat)
  | rearrange (pending queue : Address → List PoolTx) (changesSinceReorg : Nat)

def PoolCall.offered : PoolCall → List PoolTx
  | addRemotes _ txs => txs
  | reinject _ txs => txs
  | drop _ => []
  | removed _ => []
  | rearrange _ _ _ => []

def perform (pool : TxPool) : PoolCall → TxPool
  | .addRemotes view txs => addRemotes view pool txs
  | .reinject view txs => (addTxsLocked view false pool txs).2
  | .drop hash => { pool with all := pool.all.remove hash }
  | .removed count => { pool with priced := pool.priced.removed pool.all count }
  | .rearrange pending queue changesSinceReorg => { pool with pending, queue, changesSinceReorg }

def Performs (pool : TxPool) (call : PoolCall) (next : TxPool) : Prop :=
  next = pool.perform call

/-- The loop that merges the errors into the slots from `nilSlot` on; a slot past the
end is out of range. -/
def mergeErrs : List (Option PoolError) → List (Option PoolError) →
    Except Fault (List (Option PoolError))
  | [], errs => .ok errs
  | _ :: _, [] => .error (.panic "index out of range")
  | err :: newErrs, some known :: errs => do
    return some known :: (← mergeErrs (err :: newErrs) errs)
  | err :: newErrs, none :: errs => do
    return err :: (← mergeErrs newErrs errs)

/-- `addTxs`, up to the request for a promotion. -/
def addTxs (view : PoolView) (fromLocal : Bool) (pool : TxPool) (txs : List PoolTx) :
    Except Fault (List (Option PoolError) × TxPool) := do
  let errs := txs.map (screen view pool)
  let news := txs.filter fun tx => screen view pool tx = none
  if news = [] then return (errs, pool)
  let (newErrs, after) := addTxsLocked view fromLocal pool news
  return (← mergeErrs newErrs errs, after)

variable (view : PoolView) (fromLocal : Bool)

/-- What a transaction of a batch is told, after the ones before it that have passed
the screening. -/
def verdict (view : PoolView) (fromLocal : Bool) (screening : PoolTx → Option PoolError)
    (pool : TxPool) (earlier : List PoolTx) (tx : PoolTx) : Option PoolError :=
  (screening tx).or
    (errorOf (add view fromLocal
      (addTxsLocked view fromLocal pool (earlier.filter fun tx => screening tx = none)).2 tx).1)

omit [Crypto] in
theorem mergeErrs_known {newErrs errs merged : List (Option PoolError)} (known : PoolError)
    (rest : mergeErrs newErrs errs = .ok merged) :
    mergeErrs newErrs (some known :: errs) = .ok (some known :: merged) := by
  cases newErrs with
  | nil =>
    rw [mergeErrs] at rest ⊢
    cases rest
    rfl
  | cons => simp [mergeErrs, rest]

theorem mergeErrs_verdicts (screening : PoolTx → Option PoolError) (pool : TxPool)
    (txs : List PoolTx) :
    ∃ errs, mergeErrs
        (addTxsLocked view fromLocal pool (txs.filter fun tx => screening tx = none)).1
        (txs.map screening) = .ok errs ∧
      ∀ pos, errs[pos]? = txs[pos]?.map (verdict view fromLocal screening pool (txs.take pos)) := by
  induction txs generalizing pool with
  | nil => exact ⟨[], rfl, by simp⟩
  | cons tx txs ih =>
    cases screened : screening tx with
    | some known =>
      rcases ih pool with ⟨errs, merged, verdicts⟩
      refine ⟨some known :: errs, ?_, ?_⟩
      · simpa [screened] using mergeErrs_known known merged
      · rintro (_ | pos)
        · simp [verdict, screened]
        · have same : verdict view fromLocal screening pool (tx :: txs.take pos) =
              verdict view fromLocal screening pool (txs.take pos) := by
            funext other
            simp [verdict, screened]
          simp [verdicts, same]
    | none =>
      rcases ih (add view fromLocal pool tx).2 with ⟨errs, merged, verdicts⟩
      refine ⟨errorOf (add view fromLocal pool tx).1 :: errs, ?_, ?_⟩
      · simp [screened, addTxsLocked, mergeErrs, merged]
      · rintro (_ | pos)
        · simp [verdict, screened, addTxsLocked]
        · have same : verdict view fromLocal screening pool (tx :: txs.take pos) =
              verdict view fromLocal screening (add view fromLocal pool tx).2
                (txs.take pos) := by
            funext other
            simp [verdict, screened, addTxsLocked]
          simp [verdicts, same]

/-- Every transaction of a batch gets its own verdict, at its own position. -/
theorem addTxs_verdicts (pool : TxPool) (txs : List PoolTx) :
    ∃ errs after, addTxs view fromLocal pool txs = .ok (errs, after) ∧ errs.length = txs.length ∧
      ∀ position tx, txs[position]? = some tx →
        errs[position]? = some (verdict view fromLocal (screen view pool) pool
          (txs.take position) tx) := by
  rcases mergeErrs_verdicts view fromLocal (screen view pool) pool txs with ⟨errs, merged, verdicts⟩
  refine ⟨errs, (addTxsLocked view fromLocal pool
    (txs.filter fun tx => screen view pool tx = none)).2, ?_, ?_, ?_⟩
  · unfold addTxs
    by_cases nothing : (txs.filter fun tx => screen view pool tx = none) = []
    · rw [nothing] at merged ⊢
      simp only [addTxsLocked, mergeErrs, Except.ok.injEq] at merged
      rw [if_pos rfl, merged]
      rfl
    · simp [nothing, merged]
  · apply le_antisymm
    · rw [← List.getElem?_eq_none_iff, verdicts, List.getElem?_eq_none le_rfl]
      rfl
    · rw [← List.getElem?_eq_none_iff, ← Option.map_eq_none_iff, ← verdicts]
      exact List.getElem?_eq_none le_rfl
  · intro position tx found
    rw [verdicts, found]
    rfl

end TxPool

end Octopus
