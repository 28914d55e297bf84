import Mathlib.Algebra.Order.BigOperators.Group.List
import Octopus.Library.Runs
import Octopus.TxPool.Pool

/-!
# The capacity of the transaction pool

A remote transaction is taken in if there are slots left, and otherwise in the place of at
least one other that `Discard` has found.  The heaps may hold stale entries, but what
`Discard` gives up is looked up in the table first.
-/

namespace Octopus

open Library List

variable {tx : PoolTx} {isLocal : Bool} {txs drop : List PoolTx} {hash : Hash}

section

variable [Crypto]

def slotsOf (txs : List PoolTx) : Nat :=
  (txs.map PoolTx.numSlots).sum

omit [Crypto] in
theorem length_le_slotsOf (sized : ∀ tx ∈ txs, 1 ≤ tx.numSlots) : txs.length ≤ slotsOf txs := by
  induction txs with
  | nil => simp
  | cons tx _ ih =>
    have first := sized tx (by simp)
    have rest := ih fun other mem => sized other (by simp [mem])
    simp only [slotsOf, length_cons, map_cons, sum_cons] at rest ⊢
    omega

theorem filter_hash_eq_self (absent : ∀ tx ∈ txs, tx.hash ≠ hash) :
    (txs.filter fun tx => tx.hash ≠ hash) = txs := by
  rw [filter_eq_self]
  intro tx mem
  simpa using absent tx mem

theorem slotsOf_filter (unique : (txs.map PoolTx.hash).Nodup) (mem : tx ∈ txs) :
    slotsOf (txs.filter fun other => other.hash ≠ tx.hash) + tx.numSlots = slotsOf txs := by
  induction txs with
  | nil => cases mem
  | cons first rest ih =>
    rw [map_cons, nodup_cons] at unique
    rcases mem_cons.mp mem with rfl | later
    · have differ : ∀ other ∈ rest, other.hash ≠ tx.hash := by
        intro other there same
        exact unique.1 (same ▸ mem_map_of_mem there)
      rw [filter_cons_of_neg (by simp), filter_hash_eq_self differ]
      simp only [slotsOf, map_cons, sum_cons]
      omega
    have differs : first.hash ≠ tx.hash := by
      intro same
      exact unique.1 (same ▸ mem_map_of_mem later)
    have counted := ih unique.2 later
    rw [filter_cons_of_pos (by simpa using differs)]
    simp only [slotsOf, map_cons, sum_cons] at counted ⊢
    omega

namespace TxLookup

variable {lookup : TxLookup} {hash : Hash}

theorem get_eq_none_iff : lookup.get hash = none ↔ ∀ tx ∈ lookup.all, tx.hash ≠ hash := by
  simp [get]

theorem getRemote_ne_none (found : lookup.getRemote hash ≠ none) :
    ∃ tx ∈ lookup.remotes, tx.hash = hash := by
  simpa [getRemote] using found

section

variable (lookup : TxLookup)

theorem remove_lists (hash : Hash) :
    (lookup.remove hash).locals = lookup.locals.filter (fun tx => tx.hash ≠ hash) ∧
      (lookup.remove hash).remotes = lookup.remotes.filter fun tx => tx.hash ≠ hash := by
  cases found : lookup.get hash with
  | none =>
    have absent := get_eq_none_iff.mp found
    simp only [remove, found]
    rw [filter_hash_eq_self fun tx mem => absent tx (by simp [all, mem]),
      filter_hash_eq_self fun tx mem => absent tx (by simp [all, mem])]
    exact ⟨rfl, rfl⟩
  | some => simp [remove, found]

theorem remove_all (hash : Hash) :
    (lookup.remove hash).all = lookup.all.filter fun tx => tx.hash ≠ hash := by
  rcases lookup.remove_lists hash with ⟨locals, remotes⟩
  rw [all, locals, remotes, ← filter_append, all]

end

structure Shrunk (before after : TxLookup) : Prop where
  locals : after.locals.Sublist before.locals
  remotes : after.remotes.Sublist before.remotes

omit [Crypto] in
theorem Shrunk.all {before after : TxLookup} (shrunk : Shrunk before after) :
    after.all.Sublist before.all :=
  shrunk.locals.append shrunk.remotes

theorem shrunk_remove (lookup : TxLookup) (hash : Hash) : Shrunk lookup (lookup.remove hash) where
  locals := by
    rw [(lookup.remove_lists hash).1]
    exact filter_sublist
  remotes := by
    rw [(lookup.remove_lists hash).2]
    exact filter_sublist

end TxLookup

/-- The count of slots is right, no transaction is twice in the table, all have a size, and the
remote ones are within the capacity. -/
structure Accounted (capacity : Nat) (lookup : TxLookup) : Prop where
  slots : lookup.slots = slotsOf lookup.all
  unique : (lookup.all.map PoolTx.hash).Nodup
  sized : ∀ tx ∈ lookup.all, 1 ≤ tx.numSlots
  bounded : lookup.remotes.length ≤ capacity

section

variable {capacity : Nat} {lookup : TxLookup}

theorem Accounted.remove (accounted : Accounted capacity lookup) (hash : Hash) :
    Accounted capacity (lookup.remove hash) := by
  have shrunk := lookup.shrunk_remove hash
  refine ⟨?_, ?_, ?_, ?_⟩
  · cases found : lookup.get hash with
    | none =>
      have unchanged : lookup.remove hash = lookup := by simp [TxLookup.remove, found]
      rw [unchanged]
      exact accounted.slots
    | some tx =>
      have mem : tx ∈ lookup.all := mem_of_find?_eq_some found
      have isHash : tx.hash = hash := by simpa using find?_some found
      have counted := slotsOf_filter accounted.unique mem
      rw [TxLookup.remove_all, ← isHash]
      have less : (lookup.remove tx.hash).slots = lookup.slots - tx.numSlots := by
        rw [isHash]
        simp [TxLookup.remove, found]
      rw [less, accounted.slots, ← counted]
      omega
  · exact accounted.unique.sublist (shrunk.all.map PoolTx.hash)
  · intro tx mem
    exact accounted.sized tx (shrunk.all.subset mem)
  · exact shrunk.remotes.length_le.trans accounted.bounded

end

theorem mem_discardLoop (lookup : TxLookup) (needed : Int) (drop : List PoolTx)
    (priced : PricedList) (mem : tx ∈ drop) : tx ∈ (priced.discardLoop lookup needed drop).2.1 := by
  fun_induction PricedList.discardLoop lookup needed drop priced with
  | case1 | case2 | case5 => exact mem
  | case3 _ _ _ _ _ _ _ _ _ ih
  | case4 _ _ _ _ _ _ _ _ _ ih
  | case6 _ _ _ _ _ _ _ _ _ ih => exact ih mem
  | case7 _ _ _ _ _ _ _ _ _ ih => exact ih (mem_append_left _ mem)

theorem exists_live_of_discardLoop (lookup : TxLookup) (needed : Int) (drop : List PoolTx)
    (priced : PricedList) (short : 0 < needed)
    (enough : (priced.discardLoop lookup needed drop).1 ≤ 0) :
    ∃ tx ∈ (priced.discardLoop lookup needed drop).2.1, lookup.getRemote tx.hash ≠ none := by
  fun_induction PricedList.discardLoop lookup needed drop priced with
  | case1 | case2 | case5 => omega
  | case3 _ _ _ _ _ _ _ _ _ ih
  | case4 _ _ _ _ _ _ _ _ _ ih
  | case6 _ _ _ _ _ _ _ _ _ ih => exact ih short enough
  | case7 _ _ _ _ _ tx _ _ live _ => exact ⟨tx, mem_discardLoop _ _ _ _ (by simp), live⟩

theorem exists_live_of_discard {lookup : TxLookup} {needed : Int} {priced after : PricedList}
    (short : 0 < needed) (discarded : priced.discard lookup needed false = (some drop, after)) :
    ∃ tx ∈ drop, ∃ remote ∈ lookup.remotes, remote.hash = tx.hash := by
  have live := exists_live_of_discardLoop lookup needed [] priced short
  rcases looped : priced.discardLoop lookup needed [] with ⟨left, _, _⟩
  rw [looped] at live
  simp only [PricedList.discard, looped] at discarded
  split_ifs at discarded with missing
  · simp at discarded
  · cases discarded
    have enough : left ≤ 0 := by simpa using missing
    rcases live enough with ⟨tx, mem, found⟩
    exact ⟨tx, mem, TxLookup.getRemote_ne_none found⟩

namespace TxPool

variable {pool before mid after : TxPool} {view : PoolView}

def Sound (pool : TxPool) : Prop :=
  Accounted pool.config.capacity pool.all

structure Drained (before after : TxPool) : Prop where
  config : after.config = before.config
  shrunk : before.all.Shrunk after.all
  sound : before.Sound → after.Sound

section

variable (pool : TxPool)

theorem Drained.refl : Drained pool pool where
  config := rfl
  shrunk := ⟨List.Sublist.refl _, List.Sublist.refl _⟩
  sound := id

theorem Drained.trans (first : Drained before mid) (second : Drained mid after) :
    Drained before after where
  config := second.config.trans first.config
  shrunk := ⟨second.shrunk.locals.trans first.shrunk.locals,
    second.shrunk.remotes.trans first.shrunk.remotes⟩
  sound := fun sound => second.sound (first.sound sound)

theorem Drained.of_eq (config : after.config = before.config) (all : after.all = before.all) :
    Drained before after where
  config := config
  shrunk := all ▸ (Drained.refl before).shrunk
  sound := by
    intro sound
    rw [Sound, config, all]
    exact sound

theorem drained_remove (hash : Hash) : Drained pool { pool with all := pool.all.remove hash } where
  config := rfl
  shrunk := pool.all.shrunk_remove hash
  sound := fun sound => Accounted.remove sound hash

theorem drained_replace (old : Option PoolTx) : Drained pool (pool.replace old) := by
  cases old with
  | none => exact Drained.refl pool
  | some old => exact (drained_remove pool old.hash).trans (Drained.of_eq rfl rfl)

end

theorem Drained.replace (drained : Drained before after) (old : Option PoolTx) :
    Drained before (after.replace old) :=
  drained.trans (drained_replace after old)

section

variable (view : PoolView) (pool : TxPool)

theorem drained_enqueueTx (tx : PoolTx) (isLocal : Bool) :
    Drained pool (enqueueTx view pool tx isLocal false).2 := by
  cases added : TxList.add (pool.queue (view.owner tx)) tx pool.config.priceBump with
  | none =>
    simp only [enqueueTx, added]
    exact Drained.refl pool
  | some =>
    simp only [enqueueTx, added]
    apply Drained.replace
    exact Drained.of_eq rfl rfl

theorem drained_requeue (txs : List PoolTx) : Drained pool (requeue view pool txs) := by
  induction txs generalizing pool with
  | nil => exact Drained.refl pool
  | cons tx _ ih => exact (drained_enqueueTx view pool tx false).trans (ih _)

theorem drained_removeTx_of_remove (hash : Hash) :
    Drained { pool with all := pool.all.remove hash } (removeTx view pool hash) := by
  cases found : pool.all.get hash with
  | none =>
    have unchanged : pool.all.remove hash = pool.all := by simp [TxLookup.remove, found]
    simp only [removeTx, found, unchanged]
    exact Drained.refl pool
  | some =>
    simp only [removeTx, found]
    split_ifs
    · apply Drained.trans _ (drained_requeue view _ _)
      exact Drained.of_eq rfl rfl
    · exact Drained.of_eq rfl rfl

theorem drained_removeTx (hash : Hash) : Drained pool (removeTx view pool hash) :=
  (drained_remove pool hash).trans (drained_removeTx_of_remove view pool hash)

end

theorem hash_ne_of_removeTx (mem : tx ∈ (removeTx view pool hash).all.all) : tx.hash ≠ hash := by
  have kept := (drained_removeTx_of_remove view pool hash).shrunk.all.subset mem
  rw [TxLookup.remove_all, mem_filter] at kept
  simpa using kept.2

theorem drained_removeAll (view : PoolView) (pool : TxPool) (txs : List PoolTx) :
    Drained pool (removeAll view pool txs) := by
  induction txs generalizing pool with
  | nil => exact Drained.refl pool
  | cons tx _ ih => exact (drained_removeTx view pool tx.hash).trans (ih _)

theorem hash_ne_of_removeAll {dropped : PoolTx} (mem : tx ∈ (removeAll view pool txs).all.all)
    (drop : dropped ∈ txs) : tx.hash ≠ dropped.hash := by
  induction txs generalizing pool with
  | nil => cases drop
  | cons _ rest ih =>
    rcases mem_cons.mp drop with rfl | later
    · apply hash_ne_of_removeTx
      exact (drained_removeAll view _ rest).shrunk.all.subset mem
    · exact ih mem later

theorem length_remotes_lt (drained : Drained before after) {remote : PoolTx}
    (there : remote ∈ before.all.remotes) (gone : ∀ tx ∈ after.all.all, tx.hash ≠ remote.hash) :
    after.all.remotes.length < before.all.remotes.length := by
  apply lt_of_le_of_ne drained.shrunk.remotes.length_le
  intro same
  have unchanged := drained.shrunk.remotes.eq_of_length same
  exact gone remote (by simp [TxLookup.all, unchanged, there]) rfl

structure RoomMade (pool : TxPool) (tx : PoolTx) (isLocal : Bool)
    (result : Except PoolError Unit × TxPool) : Prop where
  drained : Drained pool result.2
  room : result.1 = .ok () → isLocal = false → 1 ≤ tx.numSlots → pool.Sound →
    result.2.all.remotes.length < pool.config.capacity

theorem RoomMade.of_error {error : PoolError} (drained : Drained pool after) :
    RoomMade pool tx isLocal (.error error, after) where
  drained := drained
  room := by simp

theorem roomMade_of_fits (fits : pool.all.slots + tx.numSlots ≤ pool.config.capacity) :
    RoomMade pool tx isLocal (.ok (), pool) where
  drained := Drained.refl pool
  room := by
    intro _ _ _ sound
    have counted := length_le_slotsOf sound.sized
    have slots := sound.slots
    simp only [TxLookup.all, length_append] at counted slots
    simp only
    omega

theorem drained_discarded (view : PoolView) (pool : TxPool) (priced : PricedList) (changes : Nat)
    (drop : List PoolTx) :
    Drained pool (removeAll view { pool with priced, changesSinceReorg := changes } drop) := by
  apply Drained.trans _ (drained_removeAll view _ drop)
  exact Drained.of_eq rfl rfl

theorem roomMade_of_discard {heaps priced : PricedList} {changes : Nat}
    (full : ¬ pool.all.slots + tx.numSlots ≤ pool.config.capacity)
    (discarded : heaps.discard pool.all
      (pool.all.slots - pool.config.capacity + tx.numSlots) isLocal = (some drop, priced)) :
    RoomMade pool tx isLocal
      (.ok (), removeAll view { pool with priced, changesSinceReorg := changes } drop) := by
  have drained := drained_discarded view pool priced changes drop
  refine ⟨drained, ?_⟩
  intro _ remote _ sound
  subst remote
  rcases exists_live_of_discard (by omega) discarded with ⟨_, mem, _, there, same⟩
  have fewer := length_remotes_lt drained there
    fun other kept => same ▸ hash_ne_of_removeAll kept mem
  exact fewer.trans_le sound.bounded

theorem roomMade (view : PoolView) (pool : TxPool) (tx : PoolTx) (isLocal : Bool) :
    RoomMade pool tx isLocal (makeRoom view pool tx isLocal) := by
  rcases asked : (if isLocal then (false, pool.priced) else pool.priced.underpriced pool.all tx)
    with ⟨isUnderpriced, heaps⟩
  simp only [makeRoom, asked]
  split_ifs with fits isWorse tooMany
  · exact roomMade_of_fits fits
  · exact RoomMade.of_error (Drained.of_eq rfl rfl)
  · exact RoomMade.of_error (Drained.of_eq rfl rfl)
  · rcases discarded : heaps.discard pool.all
      (pool.all.slots - pool.config.capacity + tx.numSlots) isLocal with ⟨_ | drop, rest⟩
    · exact RoomMade.of_error (Drained.of_eq rfl rfl)
    · exact roomMade_of_discard fits discarded

/-- What `track` needs: the transaction is new to the table, and there is room if
it is a remote one. -/
structure Admits (pool : TxPool) (tx : PoolTx) (isLocal : Bool) : Prop where
  sound : pool.Sound
  sized : 1 ≤ tx.numSlots
  unpooled : ∀ other ∈ pool.all.all, other.hash ≠ tx.hash
  room : isLocal = false → pool.all.remotes.length < pool.config.capacity

theorem Admits.drain (admits : before.Admits tx isLocal) (drained : Drained before after) :
    after.Admits tx isLocal where
  sound := drained.sound admits.sound
  sized := admits.sized
  unpooled := fun other mem => admits.unpooled other (drained.shrunk.all.subset mem)
  room := by
    intro remote
    rw [drained.config]
    exact drained.shrunk.remotes.length_le.trans_lt (admits.room remote)

section

variable (admits : pool.Admits tx isLocal)
include admits

theorem Admits.perm_all : (pool.all.add tx isLocal).all.Perm (tx :: pool.all.all) := by
  cases isLocal with
  | false =>
    have absent : ∀ other ∈ pool.all.remotes, other.hash ≠ tx.hash :=
      fun other mem => admits.unpooled other (by simp [TxLookup.all, mem])
    simp only [TxLookup.add, Bool.false_eq_true, filter_hash_eq_self absent]
    exact perm_middle
  | true =>
    have absent : ∀ other ∈ pool.all.locals, other.hash ≠ tx.hash :=
      fun other mem => admits.unpooled other (by simp [TxLookup.all, mem])
    simp only [TxLookup.add, filter_hash_eq_self absent]
    exact List.Perm.refl _

theorem Admits.bounded : (pool.all.add tx isLocal).remotes.length ≤ pool.config.capacity := by
  cases isLocal with
  | false =>
    have enough := admits.room rfl
    have filtered := length_filter_le (fun other => decide (other.hash ≠ tx.hash)) pool.all.remotes
    simp only [TxLookup.add, Bool.false_eq_true, if_false, length_cons]
    omega
  | true => exact admits.sound.bounded

theorem sound_track : (pool.track tx isLocal).Sound := by
  have perm := admits.perm_all
  have sound := admits.sound
  refine ⟨?_, ?_, ?_, admits.bounded⟩
  · have counted : slotsOf (pool.all.add tx isLocal).all = tx.numSlots + slotsOf pool.all.all :=
      (perm.map PoolTx.numSlots).sum_eq
    have added : (pool.all.add tx isLocal).slots = pool.all.slots + tx.numSlots := by
      cases isLocal <;> rfl
    have before := sound.slots
    simp only [track, added]
    omega
  · apply (perm.map PoolTx.hash).nodup_iff.mpr
    rw [map_cons, nodup_cons]
    refine ⟨?_, sound.unique⟩
    simpa using admits.unpooled
  · intro other mem
    rcases mem_cons.mp (perm.subset mem) with rfl | pooled
    · exact admits.sized
    · exact sound.sized other pooled

theorem sound_file : (file view pool tx isLocal).2.Sound := by
  simp only [file, enqueueTx]
  split_ifs
  · split
    next => exact admits.sound
    next list old added =>
      apply sound_track
      apply admits.drain
      apply Drained.replace
      exact Drained.of_eq rfl rfl
  · cases added : TxList.add (pool.queue (view.owner tx)) tx pool.config.priceBump with
    | none => exact admits.sound
    | some =>
      apply sound_track
      apply admits.drain
      apply Drained.replace
      exact Drained.of_eq rfl rfl

end

theorem add_cases (view : PoolView) (pool : TxPool) (tx : PoolTx) :
    (add view false pool tx).2 = pool ∨
      pool.all.get tx.hash = none ∧ ∃ isLocal,
        (add view false pool tx).2 = (makeRoom view pool tx isLocal).2 ∨
          (makeRoom view pool tx isLocal).1 = .ok () ∧ (add view false pool tx).2 =
            (file view (makeRoom view pool tx isLocal).2 tx isLocal).2 := by
  simp only [add, Bool.false_or]
  split_ifs with known
  · exact .inl rfl
  · cases validateTx view tx (decide (view.owner tx ∈ pool.locals)) with
    | some => exact .inl rfl
    | none =>
      refine .inr ⟨not_not.mp known, decide (view.owner tx ∈ pool.locals), ?_⟩
      rcases makeRoom view pool tx (decide (view.owner tx ∈ pool.locals)) with ⟨error | _, roomy⟩
      · exact .inl rfl
      · exact .inr ⟨rfl, rfl⟩

theorem sound_add (sound : pool.Sound) (sized : 1 ≤ tx.size) :
    (add view false pool tx).2.Sound := by
  rcases add_cases view pool tx with refused | ⟨unpooled, isLocal, full | ⟨accepted, filed⟩⟩
  · rw [refused]
    exact sound
  · rw [full]
    exact (roomMade view pool tx isLocal).drained.sound sound
  · have made := roomMade view pool tx isLocal
    have drained := made.drained
    have slots := tx.numSlots_pos_iff.mpr sized
    rw [filed]
    apply sound_file
    refine ⟨drained.sound sound, slots, ?_, ?_⟩
    · intro other mem
      exact TxLookup.get_eq_none_iff.mp unpooled other (drained.shrunk.all.subset mem)
    · intro isRemote
      rw [drained.config]
      exact made.room accepted isRemote slots sound

section

variable (view : PoolView)

theorem config_enqueueTx (pool : TxPool) (tx : PoolTx) (isLocal addAll : Bool) :
    (enqueueTx view pool tx isLocal addAll).2.config = pool.config := by
  cases added : TxList.add (pool.queue (view.owner tx)) tx pool.config.priceBump with
  | none => simp [enqueueTx, added]
  | some result =>
    rcases result with ⟨_, old⟩
    simp only [enqueueTx, added]
    cases addAll <;> exact (drained_replace _ old).config

theorem config_file (pool : TxPool) (tx : PoolTx) (isLocal : Bool) :
    (file view pool tx isLocal).2.config = pool.config := by
  simp only [file]
  split_ifs
  · split
    next => rfl
    next list old added => exact (drained_replace _ old).config
  · exact config_enqueueTx view pool tx isLocal true

theorem config_add (pool : TxPool) (tx : PoolTx) :
    (add view false pool tx).2.config = pool.config := by
  rcases add_cases view pool tx with refused | ⟨_, isLocal, full | ⟨_, filed⟩⟩
  · rw [refused]
  · rw [full]
    exact (roomMade view pool tx isLocal).drained.config
  · rw [filed, config_file]
    exact (roomMade view pool tx isLocal).drained.config

theorem sound_addTxsLocked (sound : pool.Sound) (sized : ∀ tx ∈ txs, 1 ≤ tx.size) :
    (addTxsLocked view false pool txs).2.Sound := by
  induction txs generalizing pool with
  | nil => exact sound
  | cons tx _ ih =>
    apply ih (sound_add sound (sized tx (by simp)))
    intro other mem
    exact sized other (by simp [mem])

theorem config_addTxsLocked (pool : TxPool) (txs : List PoolTx) :
    (addTxsLocked view false pool txs).2.config = pool.config := by
  induction txs generalizing pool with
  | nil => rfl
  | cons tx _ ih => exact (ih _).trans (config_add view pool tx)

end

theorem config_perform (pool : TxPool) (call : PoolCall) :
    (pool.perform call).config = pool.config := by
  cases call with
  | addRemotes view _ => exact config_addTxsLocked view pool _
  | reinject view txs => exact config_addTxsLocked view pool txs
  | drop | removed | rearrange => rfl

theorem sound_perform (sound : pool.Sound) {call : PoolCall}
    (sized : ∀ tx ∈ call.offered, 1 ≤ tx.size) : (pool.perform call).Sound := by
  cases call with
  | addRemotes view _ =>
    apply sound_addTxsLocked view sound
    intro tx mem
    exact sized tx (mem_of_mem_filter mem)
  | reinject view _ => exact sound_addTxsLocked view sound sized
  | drop hash => exact (drained_remove pool hash).sound sound
  | removed | rearrange => exact sound

theorem sound_empty (config : PoolConfig) (locals : List Address) :
    ({ config, locals } : TxPool).Sound where
  slots := rfl
  unique := nodup_nil
  sized := fun _ mem => absurd mem not_mem_nil
  bounded := Nat.zero_le _

/-- In every run in which all offered transactions have a size, every pooled one takes a slot,
and there are no more remote ones than slots. -/
theorem remotes_within_capacity {config : PoolConfig} {locals : List Address}
    {calls : List PoolCall} {final : TxPool} (run : Run Performs { config, locals } calls final)
    (sized : ∀ call ∈ calls, ∀ tx ∈ call.offered, 1 ≤ tx.size) :
    (∀ tx ∈ final.all.all, 1 ≤ tx.numSlots) ∧
      final.all.remotes.length ≤ config.globalSlots + config.globalQueue := by
  have kept : final.config = config ∧ final.Sound := by
    refine run.invariant (fun _ pool => pool.config = config ∧ pool.Sound)
      ⟨rfl, sound_empty config locals⟩ ?_
    intro _ call state _ shorter _ taken earlier
    subst taken
    refine ⟨(config_perform state call).trans earlier.1, ?_⟩
    apply sound_perform earlier.2
    exact sized call (shorter.subset (by simp))
  rcases kept with ⟨same, sound⟩
  refine ⟨sound.sized, ?_⟩
  have bounded := sound.bounded
  rw [same] at bounded
  exact bounded.trans config.capacity_le

end TxPool

end

@[reducible]
def lastBytesCrypto : Crypto :=
  { sampleCrypto with keccak256 := fun bytes => BitVec.ofNat 256 (Bytes.toNat bytes) }

namespace TxPool

def sampleView : PoolView where
  eip2718 := true
  eip1559 := true
  currentMaxGas := 30000000
  gasPrice := 1
  sender := fun _ => some 5
  nonceOf := fun _ => 0
  balanceOf := fun _ => 1000000

def sampleConfig : PoolConfig where
  globalSlots := 1
  globalQueue := 1
  priceBump := 10

def samplePoolTx (number : Nat) (recorded : Option Nat) : PoolTx where
  inner := .legacy { sampleLegacyTx with nonce := BitVec.ofNat 64 number, s := number + 1 }
  recorded := recorded

theorem sized_transactions_within_capacity :
    letI := lastBytesCrypto
    ∃ final, Run Performs { config := sampleConfig }
        [.addRemotes sampleView [samplePoolTx 0 (some 100), samplePoolTx 1 (some 100)]] final ∧
      final.all.remotes.length = 2 ∧ (∀ tx ∈ final.all.all, 1 ≤ tx.numSlots) ∧
      final.all.remotes.length ≤ sampleConfig.globalSlots + sampleConfig.globalQueue := by
  let := lastBytesCrypto
  have run : Run Performs { config := sampleConfig }
      [.addRemotes sampleView [samplePoolTx 0 (some 100), samplePoolTx 1 (some 100)]]
      (({ config := sampleConfig } : TxPool).perform
        (.addRemotes sampleView [samplePoolTx 0 (some 100), samplePoolTx 1 (some 100)])) :=
    .snoc .nil rfl
  refine ⟨_, run, by decide +kernel, remotes_within_capacity run ?_⟩
  decide

/-- Transactions that were not decoded have no size, take no slots, and are taken
in when the pool should be full. -/
theorem unsized_transactions_exceed_capacity :
    letI := lastBytesCrypto
    ∃ final, Run Performs { config := sampleConfig } [.addRemotes sampleView
          [samplePoolTx 0 none, samplePoolTx 1 none, samplePoolTx 2 none]] final ∧
      (∀ tx ∈ final.all.all, tx.numSlots = 0) ∧ final.all.remotes.length = 3 ∧
      sampleConfig.globalSlots + sampleConfig.globalQueue = 2 := by
  refine ⟨_, .snoc .nil rfl, ?_, ?_, rfl⟩
  · decide +kernel
  · decide +kernel

end TxPool

end Octopus
