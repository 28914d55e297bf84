import Mathlib.Algebra.Order.BigOperators.Group.Finset
import Octopus.OperationDB.SlotValues
import Octopus.VM.Step

/-!
# What storage accesses cost

The price of a write and its refund depend on the committed, the current and the new value
of the slot.  The counter covers a clearing refund for every slot that was cleared, so
`SubRefund` can pay it back, unless the counter wraps around; with what the slots may still
be refunded, it is at most 48/29 of the prices that were asked.
-/

namespace Octopus

open Library Library.Computation Params Interaction OperationDB

variable {addr : Address} {slot : Slot} {key value : Hash} {db new : OperationDB}

def storePrice (original current value : Hash) : Nat :=
  if current = value then warmStorageReadCostEIP2929
  else if original = current then
    if original = 0 then sstoreSetGasEIP2200
    else sstoreResetGasEIP2200 - coldSloadCostEIP2929
  else warmStorageReadCostEIP2929

def addRefund (refund gas : Nat) : Nat :=
  (refund + gas) % uint64Size

/-- What a write makes of the refund counter; no value where `SubRefund` panics. -/
def storeRefund (original current value : Hash) (refund : Nat) : Option Nat :=
  let clearing := sstoreClearsScheduleRefundEIP3529
  if current = value then some refund
  else if original = current then
    some (if original ≠ 0 ∧ value = 0 then addRefund refund clearing else refund)
  else if original = 0 then
    some (if value = 0 then
      addRefund refund (sstoreSetGasEIP2200 - warmStorageReadCostEIP2929) else refund)
  else
    let restored refund := if original = value then
      addRefund refund (sstoreResetGasEIP2200 - coldSloadCostEIP2929 -
        warmStorageReadCostEIP2929) else refund
    if current = 0 then if refund < clearing then none else some (restored (refund - clearing))
    else some (restored (if value = 0 then addRefund refund clearing else refund))

/-- The refund that `SubRefund` may take back for a slot. -/
def Slot.share (slot : Slot) : Nat :=
  if slot.committed ≠ 0 ∧ slot.current = 0 then sstoreClearsScheduleRefundEIP3529 else 0

/-- The most that the next write to a slot may add to the counter for a price that
an earlier write has paid. -/
def Slot.due (slot : Slot) : Nat :=
  if slot.current = slot.committed then 0
  else if slot.committed = 0 then sstoreSetGasEIP2200 - warmStorageReadCostEIP2929
  else if slot.current = 0 then 0 else sstoreClearsScheduleRefundEIP3529

theorem sum_le_of_update {Key : Type} [DecidableEq Key] {old new : Key → Nat}
    {base bound nextBase nextBound : Nat} (spot : Key)
    (held : ∀ keys : Finset Key, base + ∑ key ∈ keys, old key ≤ bound)
    (elsewhere : ∀ key ≠ spot, new key = old key)
    (moved : nextBase + bound + new spot ≤ nextBound + base + old spot) (keys : Finset Key) :
    nextBase + ∑ key ∈ keys, new key ≤ nextBound := by
  have others : ∑ key ∈ keys.erase spot, new key = ∑ key ∈ keys.erase spot, old key :=
    Finset.sum_congr rfl fun key mem => elsewhere key (Finset.ne_of_mem_erase mem)
  have most : ∑ key ∈ keys, new key ≤ ∑ key ∈ insert spot (keys.erase spot), new key :=
    Finset.sum_le_sum_of_subset (Finset.insert_erase_subset spot keys)
  have all := held (insert spot (keys.erase spot))
  rw [Finset.sum_insert (Finset.notMem_erase spot keys)] at most all
  omega

/-- The counter covers the shares of all slots. -/
def OperationDB.Covered (db : OperationDB) : Prop :=
  ∀ slots : Finset (Address × Hash), 0 + ∑ slot ∈ slots, (db.slot slot.1 slot.2).share ≤ db.refund

/-- The prices that were asked pay for the counter and the dues of all slots. -/
def OperationDB.Funded (db : OperationDB) (asked : Nat) : Prop :=
  ∀ slots : Finset (Address × Hash),
    29 * db.refund + ∑ slot ∈ slots, 29 * (db.slot slot.1 slot.2).due ≤ 48 * asked

section

variable (wrote : new.slot = Function.update db.slot addr
  (Function.update (db.slot addr) key ((db.slot addr key).write value)))
include wrote

theorem OperationDB.slot_elsewhere (spot : Address × Hash) (other : spot ≠ (addr, key)) :
    new.slot spot.1 spot.2 = db.slot spot.1 spot.2 := by
  rw [wrote]
  by_cases owned : spot.1 = addr
  · have named : spot.2 ≠ key := fun named => other (Prod.ext owned named)
    rw [owned, Function.update_self, Function.update_of_ne named]
  · rw [Function.update_of_ne owned]

theorem OperationDB.slot_written : new.slot addr key = (db.slot addr key).write value := by
  rw [wrote, Function.update_self, Function.update_self]

theorem OperationDB.Covered.store (covered : db.Covered)
    (moved : db.refund + ((db.slot addr key).write value).share ≤
      new.refund + (db.slot addr key).share) : new.Covered := by
  refine sum_le_of_update (addr, key) covered
    (fun spot other => congrArg Slot.share (slot_elsewhere wrote spot other)) ?_
  dsimp only
  rw [slot_written wrote]
  omega

theorem OperationDB.Funded.store {asked price : Nat} (funded : db.Funded asked)
    (moved : 29 * (new.refund + ((db.slot addr key).write value).due) ≤
      29 * (db.refund + (db.slot addr key).due) + 48 * price) : new.Funded (asked + price) := by
  refine sum_le_of_update (addr, key) funded
    (fun spot other => congrArg (29 * Slot.due ·) (slot_elsewhere wrote spot other)) ?_
  dsimp only
  rw [slot_written wrote]
  omega

end

variable [Crypto] {ovm : OVM} {runner : Runner} {level : Level} {frame : Frame} {world : World}

def OVM.round (ovm : OVM) (runner : Runner) (level : Level) (frame : Frame) :
    Go World (Option Outcome × Frame) :=
  (stepInstruction ovm level frame).perform (ovm.answer runner level)

def settleRound (ovm : OVM) (runner : Runner) (level : Level) (execute : Exec Outcome) :
    Except VMError Nat × Frame → Go World (Option Outcome × Frame)
  | (.error _, frame) => pure (some ([], some .outOfGas), frame)
  | (.ok cost, frame) =>
    if frame.contract.gas < cost then pure (some ([], some .outOfGas), frame)
    else do
      match ← (execute (frame.spend cost)).perform (ovm.answer runner level) with
      | ((_, none), frame) => return (none, { frame with pc := (frame.pc + 1) % uint64Size })
      | ((res, some err), frame) => return (some (res, some err), frame)

theorem round_withGas (runner : Runner) {instr : Operation} {gas : Nat → GasExec Nat}
    (entry : instructionSet ovm level (frame.contract.getOp frame.pc) = instr)
    (free : instr.constantGas = 0) (metered : instr.dynamicGas = some gas)
    (compact : instr.memorySize = none) :
    ((frame.stack.length < instr.minStack ∨ instr.maxStack < frame.stack.length) ∧
        ∃ failure, ovm.round runner level frame = pure (some failure, frame)) ∨
      instr.minStack ≤ frame.stack.length ∧ ovm.round runner level frame =
        ((gas 0).run frame).perform (ovm.answer runner level) >>=
          settleRound ovm runner level instr.execute := by
  unfold OVM.round stepInstruction
  rw [get_bind, entry]
  by_cases short : frame.stack.length < instr.minStack
  · rw [if_pos short]
    exact .inl ⟨.inl short, _, rfl⟩
  rw [if_neg short]
  by_cases long : frame.stack.length > instr.maxStack
  · rw [if_pos long]
    exact .inl ⟨.inr long, _, rfl⟩
  refine .inr ⟨Nat.not_lt.mp short, ?_⟩
  rw [if_neg long, free, useGas_bind, if_neg (Nat.not_lt_zero _), if_pos rfl]
  unfold chargeDynamic requiredMemory
  rw [metered, compact]
  change ((((gas 0).run frame).andThen _).andThen _).perform _ = _
  rw [andThen_assoc, perform_andThen]
  congr 1
  funext quote
  rcases quote with ⟨_ | cost, next⟩
  · rfl
  change (((useGas cost >>= _) next).andThen _).perform _ = _
  rw [useGas_bind]
  simp only [settleRound]
  by_cases poor : next.contract.gas < cost
  · rw [if_pos poor, if_pos poor]
    rfl
  rw [if_neg poor, if_neg poor]
  change (andThen (instr.execute (next.spend cost)) _).perform _ = _
  rw [perform_andThen]
  congr 1
  funext done
  rcases done with ⟨⟨_, _ | _⟩, _⟩ <;> rfl

def refundPanic : Fault := .panic "Refund counter below zero"

abbrev GasRun := Interaction Fault Request Request.Reply (Except VMError Nat × Frame)

variable {next : Hash → GasRun}

/-- A price and a refund counter, with nothing else changed that later prices read, or a panic. -/
def Quotes (ovm : OVM) (runner : Runner) (level : Level) (frame : Frame)
    (program : GasRun) (price : Nat) (world : World) : Option Nat → Prop
  | none => program.perform (ovm.answer runner level) world = .error refundPanic
  | some refund => ∃ db, db.slot = world.db.slot ∧ db.accessList = world.db.accessList ∧
      db.refund = refund ∧ program.perform (ovm.answer runner level) world =
        .ok ((.ok price, frame), { world with db := db })

namespace Quotes

variable {price : Nat}

theorem done (price : Nat) (world : World) :
    Quotes ovm runner level frame (.done (.ok price, frame)) price world (some world.db.refund) :=
  ⟨world.db, rfl, rfl, rfl, rfl⟩

section

variable {outcome : Option Nat} {addr : Address} {key : Hash}

theorem ask {query : Request} {next : query.Reply → GasRun} {reply : query.Reply}
    (db : OperationDB)
    (answered : ovm.answer runner level query world = .ok (reply, { world with db := db }))
    (slot : db.slot = world.db.slot) (accessList : db.accessList = world.db.accessList)
    (rest : Quotes ovm runner level frame (next reply) price { world with db := db } outcome) :
    Quotes ovm runner level frame (.ask query next) price world outcome := by
  have asked : (Interaction.ask query next).perform (ovm.answer runner level) world =
      (next reply).perform (ovm.answer runner level) { world with db := db } := by
    rw [perform, bind_apply, answered]
  cases outcome with
  | none => exact asked.trans rest
  | some =>
    rcases rest with ⟨last, sameSlot, sameList, counted, ran⟩
    exact ⟨last, sameSlot.trans slot, sameList.trans accessList, counted, asked.trans ran⟩

theorem getState (rest : ∀ new : World, world.db.Undisturbed new.db →
      Quotes ovm runner level frame (next (world.db.slot addr key).current) price new outcome) :
    Quotes ovm runner level frame (.ask (.getState addr key) next) price world outcome :=
  have read := world.db.undisturbed_getState addr key
  ask _ rfl read.slot read.accessList (world.db.getState_fst_slot addr key ▸ rest _ read)

theorem getCommittedState (rest : ∀ new : World, world.db.Undisturbed new.db →
      Quotes ovm runner level frame (next (world.db.slot addr key).committed) price new outcome) :
    Quotes ovm runner level frame (.ask (.getCommittedState addr key) next) price world outcome :=
  have read := world.db.undisturbed_getCommittedState addr key
  ask _ rfl read.slot read.accessList (world.db.getCommittedState_fst_slot addr key ▸ rest _ read)

end

variable (outcome : Nat → Option Nat) {gas : Nat} {next : Unit → GasRun}
  (rest : ∀ new : World, Quotes ovm runner level frame (next ()) price new
    (outcome new.db.refund))

include rest

theorem addRefund : Quotes ovm runner level frame (.ask (.addRefund gas) next) price world
    (outcome (Octopus.addRefund world.db.refund gas)) :=
  ask (world.db.addRefund gas) rfl (slot_congr rfl rfl) rfl (rest _)

theorem subRefund : Quotes ovm runner level frame (.ask (.subRefund gas) next) price world
    (if world.db.refund < gas then none else outcome (world.db.refund - gas)) := by
  by_cases short : world.db.refund < gas
  · rw [if_pos short, Quotes, perform, bind_apply, OVM.answer_subRefund, if_pos short]
    rfl
  · rw [if_neg short]
    refine ask { world.db.append (.refund world.db.refund) with refund := world.db.refund - gas }
      ?_ (slot_congr rfl rfl) rfl (rest _)
    rw [OVM.answer_subRefund, if_neg short]

end Quotes

section

variable {key value : Word} {rest : List Word} (stack : frame.stack = key :: value :: rest)
include stack

theorem quotes_gasSStoreEIP3529 (rich : sstoreSentryGasEIP2200 < frame.contract.gas)
    (shown : world.db.slot frame.contract.self key = slot) :
    Quotes ovm runner level frame ((gasSStoreEIP3529 0).run frame)
      (storePrice slot.committed slot.current value) world
      (storeRefund slot.committed slot.current value world.db.refund) := by
  have top : frame.stack[0]? = some key := by rw [stack]; rfl
  have below : frame.stack[1]? = some value := by rw [stack]; rfl
  unfold gasSStoreEIP3529 makeGasSStoreFunc
  rw [gas_getThe_bind]
  rw [if_neg (Nat.not_le.mpr rich), gas_back_bind below, gas_peek_bind top, gas_request_bind]
  refine .getState fun first read => ?_
  rcases slot with ⟨original, current, _⟩
  rw [shown]
  simp only [storePrice, storeRefund]
  by_cases noop : current = value
  · rw [if_pos noop, if_pos noop, if_pos noop, ← read.refund]
    exact .done _ first
  rw [if_neg noop, if_neg noop, if_neg noop, gas_request_bind]
  refine .getCommittedState fun second again => ?_
  have refund : second.db.refund = world.db.refund := (read.trans again).refund
  rw [read.slot, shown, ← refund]
  by_cases clean : original = current
  · rw [if_pos clean, if_pos clean, if_pos clean]
    by_cases fresh : original = 0
    · rw [if_pos fresh, if_pos fresh, if_neg fun cleared => cleared.1 fresh]
      exact .done _ second
    rw [if_neg fresh, if_neg fresh]
    by_cases cleared : value = 0
    · rw [if_pos cleared, if_pos ⟨fresh, cleared⟩, gas_request_bind]
      exact .addRefund some fun new => .done _ new
    · rw [if_neg cleared, if_neg fun both => cleared both.2]
      exact .done _ second
  rw [if_neg clean, if_neg clean, if_neg clean]
  by_cases fresh : original = 0
  · subst fresh
    rw [if_neg (not_not_intro rfl), if_pos rfl]
    by_cases cleared : 0 = value
    · rw [if_pos cleared, if_pos rfl, if_pos cleared.symm, gas_request_bind]
      exact .addRefund some fun new => .done _ new
    · rw [if_neg cleared, if_neg (Ne.symm cleared)]
      exact .done _ second
  rw [if_pos fresh]
  simp only [if_neg fresh]
  let restore (refund : Nat) : Nat := if original = value then
    addRefund refund (sstoreResetGasEIP2200 - coldSloadCostEIP2929 -
      warmStorageReadCostEIP2929) else refund
  have restored : ∀ new : World, Quotes ovm runner level frame ((if original = value then do
        request (.addRefund (sstoreResetGasEIP2200 - coldSloadCostEIP2929 -
            warmStorageReadCostEIP2929))
        return warmStorageReadCostEIP2929
      else return warmStorageReadCostEIP2929 : GasExec Nat).run frame)
      warmStorageReadCostEIP2929 new (some (restore new.db.refund)) := by
    intro new
    simp only [restore]
    by_cases back : original = value
    · rw [if_pos back, if_pos back, gas_request_bind]
      exact .addRefund some fun last => .done _ last
    · rw [if_neg back, if_neg back]
      exact .done _ new
  by_cases empty : current = 0
  · rw [if_pos empty, if_pos empty, gas_request_bind]
    exact .subRefund (fun refund => some (restore refund)) restored
  rw [if_neg empty, if_neg empty]
  by_cases cleared : value = 0
  · rw [if_pos cleared, if_pos cleared, gas_request_bind]
    exact .addRefund (fun refund => some (restore refund)) restored
  · rw [if_neg cleared, if_neg cleared]
    exact restored second

theorem perform_opSstore : (opSstore level frame).perform (ovm.answer runner level) world =
      if level.readOnly then .ok ((([], some .writeProtection), frame), world)
      else .ok ((([], none), { frame with stack := rest }),
        { world with db := world.db.setState frame.contract.self key value }) := by
  rcases frame with ⟨contract, _, _, _, _, _⟩
  cases stack
  unfold opSstore
  split <;> rfl

end

/-- A round of `SSTORE` leaves the world as it is, or settles the refund of the write and then
panics, fails for lack of gas or write access, or writes. -/
theorem round_sstore (ovm : OVM) (runner : Runner) (level : Level)
    (fetched : frame.contract.getOp frame.pc = .sstore) :
    ((frame.stack.length < 2 ∨ stackLimit + 2 < frame.stack.length ∨
          frame.contract.gas ≤ sstoreSentryGasEIP2200) ∧
        ∃ failure, ovm.round runner level frame world = .ok ((some failure, frame), world)) ∨
      ∃ key value rest slot, frame.stack = key :: value :: rest ∧
        sstoreSentryGasEIP2200 < frame.contract.gas ∧ world.db.slot frame.contract.self key = slot ∧
        match storeRefund slot.committed slot.current value world.db.refund with
        | none => ovm.round runner level frame world = .error refundPanic
        | some refund => ∃ db, db.slot = world.db.slot ∧ db.accessList = world.db.accessList ∧
            db.refund = refund ∧
            if frame.contract.gas < storePrice slot.committed slot.current value ∨
              level.readOnly then
              ∃ failure next, ovm.round runner level frame world =
                .ok ((some failure, next), { world with db := db })
            else ∃ next, ovm.round runner level frame world = .ok ((none, next),
                { world with db := db.setState frame.contract.self key value }) ∧
              next.contract.gas =
                frame.contract.gas - storePrice slot.committed slot.current value := by
  have entry : instructionSet ovm level (frame.contract.getOp frame.pc) =
      (Operation.plain 2 0 0 (opSstore level)).withGas gasSStoreEIP3529 := by rw [fetched]; rfl
  rcases round_withGas runner entry rfl rfl rfl with ⟨stack, failure, failed⟩ | ⟨enough, ran⟩
  · exact .inl ⟨stack.imp_right .inl, failure, by rw [failed]; rfl⟩
  rcases exists_two enough with ⟨key, value, rest, stack, -⟩
  by_cases poor : frame.contract.gas ≤ sstoreSentryGasEIP2200
  · refine .inl ⟨.inr (.inr poor), ([], some .outOfGas), ?_⟩
    rw [ran]
    unfold gasSStoreEIP3529 makeGasSStoreFunc
    rw [gas_getThe_bind]
    rw [if_pos poor]
    rfl
  refine .inr ⟨key, value, rest, _, stack, Nat.not_le.mp poor, rfl, ?_⟩
  have quoted : Quotes ovm runner level frame _ _ world _ :=
    quotes_gasSStoreEIP3529 stack (Nat.not_le.mp poor) rfl
  generalize world.db.slot frame.contract.self key = slot at quoted ⊢
  generalize storePrice slot.committed slot.current value = price at quoted ⊢
  generalize storeRefund slot.committed slot.current value world.db.refund = outcome at quoted ⊢
  cases outcome with
  | none => rw [ran, bind_apply, quoted]
  | some =>
    rcases quoted with ⟨db, sameSlot, sameList, counted, charged⟩
    refine ⟨db, sameSlot, sameList, counted, ?_⟩
    rw [ran, bind_apply, charged]
    simp only [settleRound]
    by_cases short : frame.contract.gas < price
    · rw [if_pos (.inl short), if_pos short]
      exact ⟨_, frame, rfl⟩
    have executed : (opSstore level (frame.spend price)).perform (ovm.answer runner level)
        { world with db := db } = _ :=
          perform_opSstore (show (frame.spend price).stack = _ from stack)
    rw [if_neg short, bind_apply]
    simp only [Operation.withGas, Operation.plain, executed]
    by_cases guarded : level.readOnly
    · rw [if_pos (.inr guarded), if_pos guarded]
      exact ⟨_, _, rfl⟩
    · rw [if_neg (not_or.mpr ⟨short, guarded⟩), if_neg guarded]
      exact ⟨_, rfl, rfl⟩

end Octopus
