import Mathlib.Data.Set.Card
import Octopus.Consensus.Rules
import Octopus.VM.StorageGas

/-!
# Storage accesses of a transaction

The rounds of a transaction that read or write storage come from frames of any
contracts, at any level, and share one world.
-/

namespace Octopus

open Library.Computation Params OperationDB List Function

variable {key : Word} {steps : List (Level × Frame)} {list : AccessList} {world : World}

section

variable [Crypto] {ovm : OVM} {runner : Runner} {level : Level} {frame : Frame} {world : World}

def Stores (step : Level × Frame) : Prop :=
  step.2.contract.getOp step.2.pc = .sstore ∧ step.1.readOnly = false

variable (ovm : OVM) (runner : Runner)

variable (stores : ∀ step ∈ steps, Stores step)
include stores

end

section

attribute [local instance] sampleCrypto

def filledDB : OperationDB where
  database := { storageTries := fun _ => some fun _ => 1 }
  originalRoot := 1
  trie := fun _ => some { nonce := 0, balance := 0, root := 1, codeHash := emptyCodeHash }

def idleRunner : Runner :=
  fun _ _ _ _ => fault .outOfFuel

def storeStep (gas : Nat) (key value : Word) : Level × Frame :=
  ({}, { contract := { callerAddress := 0, self := 0xc0, code := [0x55], codeHash := 0, gas := gas
                       value := 0 }
         stack := [key, value] })

section

variable (runner : Runner)

end

end

namespace AccessList

def Separated (list : AccessList) : Prop :=
  ∀ address index, list.addresses.lookup address = some (some index) →
    index < list.slots.length ∧
      ∀ other, list.addresses.lookup other = some (some index) → other = address

def listed (list : AccessList) (slot : Address × Hash) : Bool :=
  (list.contains slot.1 slot.2).2

theorem addSlot_separated (separated : list.Separated) (addr : Address) (slot : Hash) :
    (list.addSlot addr slot).2.Separated ∧ ∀ pair,
      (list.addSlot addr slot).2.listed pair =
        (decide (pair = (addr, slot)) || list.listed pair) := by
  have lookups : ∀ owner index, (list.addresses.insert addr (some index)).lookup owner =
      if owner = addr then some (some index) else list.addresses.lookup owner := by
    intro owner index
    by_cases same : owner = addr
    · rw [if_pos same, same, AList.lookup_insert]
    · rw [if_neg same, AList.lookup_insert_ne same]
  constructor
  · unfold Separated addSlot at *
    grind
  · unfold Separated listed contains addSlot at *
    grind

theorem addSlot_of_listed {list : AccessList} {addr : Address} {slot : Hash}
    (held : list.listed (addr, slot)) : (list.addSlot addr slot).2 = list := by
  unfold listed contains addSlot at *
  grind

end AccessList

theorem OperationDB.accessList_addSlotToAccessList (db : OperationDB) (addr : Address)
    (slot : Hash) :
    (db.addSlotToAccessList addr slot).accessList = (db.accessList.addSlot addr slot).2 := by
  unfold addSlotToAccessList
  dsimp only
  split <;> split <;> rfl

/-- A storage access: the slot, whether it was written, what was charged, and the warm price. -/
structure Access where
  slot : Address × Hash
  store : Bool
  paid : Nat
  warm : Nat

variable {accesses : List Access}

namespace Access

def due (access : Access) (cold : Bool) : Nat :=
  if cold then
    if access.store then access.warm + Params.coldSloadCostEIP2929 else Params.coldSloadCostEIP2929
  else access.warm

/-- Every access after the seen ones pays for a cold slot exactly if it is the first to
its slot. -/
def Scheduled : List (Address × Hash) → List Access → Prop
  | _, [] => True
  | seen, access :: rest =>
    access.paid = access.due (decide (access.slot ∉ seen)) ∧ Scheduled (access.slot :: seen) rest

/-- The first access to each slot is a read, and the slot is not in the access list. -/
def LoadsFirst (list : AccessList) : List (Address × Hash) → List Access → Prop
  | _, [] => True
  | seen, access :: rest =>
    (access.slot ∉ seen → access.store = false ∧ list.listed access.slot = false) ∧
      LoadsFirst list (access.slot :: seen) rest

end Access

section

variable [Crypto] {ovm : OVM} {runner : Runner} {level : Level} {frame next : Frame}
  {world new : World}

inductive Accesses (ovm : OVM) (runner : Runner) : World → List Access → Prop
  | nil {world : World} : Accesses ovm runner world []
  | load (level : Level) (frame : Frame) (key : Word) {next : Frame} {world after : World}
      {accesses : List Access} (fetched : frame.contract.getOp frame.pc = .sload)
      (top : frame.stack[0]? = some key)
      (ran : ovm.round runner level frame world = .ok ((none, next), after))
      (rest : Accesses ovm runner after accesses) :
      Accesses ovm runner world
        ({ slot := (frame.contract.self, key), store := false
           paid := frame.contract.gas - next.contract.gas
           warm := Params.warmStorageReadCostEIP2929 } :: accesses)
  | store (level : Level) (frame : Frame) (key value : Word) {next : Frame} {world after : World}
      {accesses : List Access} (fetched : frame.contract.getOp frame.pc = .sstore)
      (top : frame.stack[0]? = some key) (below : frame.stack[1]? = some value)
      (ran : ovm.round runner level frame world = .ok ((none, next), after))
      (rest : Accesses ovm runner after accesses) :
      Accesses ovm runner world
        ({ slot := (frame.contract.self, key), store := true
           paid := frame.contract.gas - next.contract.gas
           warm := storePrice (world.db.getCommittedState frame.contract.self key).1
             (world.db.getState frame.contract.self key).1 value } :: accesses)

theorem perform_gasSLoadEIP2929 (ovm : OVM) (runner : Runner) (level : Level) (world : World)
    (top : frame.stack[0]? = some key) :
    ∃ db : OperationDB, ((gasSLoadEIP2929 0).run frame).perform (ovm.answer runner level) world =
        .ok ((.ok (if world.db.accessList.listed (frame.contract.self, key) then
          warmStorageReadCostEIP2929 else coldSloadCostEIP2929), frame), { world with db := db }) ∧
      db.accessList = (world.db.accessList.addSlot frame.contract.self key).2 := by
  have added := world.db.accessList_addSlotToAccessList frame.contract.self key
  unfold gasSLoadEIP2929
  rw [gas_peek_bind top, gas_getThe_bind, gas_request_bind]
  change ∃ db, ((if world.db.accessList.listed (frame.contract.self, key) then _ else _ :
    GasExec Nat).run frame).perform (ovm.answer runner level) world = _ ∧ _
  by_cases listed : world.db.accessList.listed (frame.contract.self, key)
  · rw [if_pos listed, if_pos listed]
    exact ⟨world.db, rfl, (AccessList.addSlot_of_listed listed).symm⟩
  · rw [if_neg listed, if_neg listed]
    exact ⟨_, rfl, added⟩

theorem perform_opSload (ovm : OVM) (runner : Runner) (level : Level) (world : World)
    (top : frame.stack[0]? = some key) :
    ∃ last db, (opSload frame).perform (ovm.answer runner level) world =
        .ok ((([], none), last), { world with db := db }) ∧
      last.contract = frame.contract ∧ db.accessList = world.db.accessList := by
  rcases frame with ⟨contract, _, _ | ⟨head, _⟩, _, _, _⟩
  · cases top
  · exact ⟨_, _, rfl, rfl, (world.db.undisturbed_getState contract.self head).accessList⟩

theorem round_sload (fetched : frame.contract.getOp frame.pc = .sload)
    (top : frame.stack[0]? = some key)
    (ran : ovm.round runner level frame world = .ok ((none, next), new)) :
    frame.contract.gas - next.contract.gas =
        (if world.db.accessList.listed (frame.contract.self, key) then
          warmStorageReadCostEIP2929 else coldSloadCostEIP2929) ∧
      new.db.accessList = (world.db.accessList.addSlot frame.contract.self key).2 := by
  have entry : instructionSet ovm level (frame.contract.getOp frame.pc) =
      (Operation.plain 1 1 0 opSload).withGas gasSLoadEIP2929 := by rw [fetched]; rfl
  rcases round_withGas runner entry rfl rfl rfl with ⟨-, _, failed⟩ | ⟨-, metered⟩
  · rw [failed] at ran
    cases ran
  rcases perform_gasSLoadEIP2929 ovm runner level world top with ⟨db, charged, listed⟩
  rw [metered, bind_apply, charged] at ran
  simp only [settleRound] at ran
  generalize (if world.db.accessList.listed (frame.contract.self, key) then
    warmStorageReadCostEIP2929 else coldSloadCostEIP2929) = price at ran ⊢
  split at ran
  · cases ran
  · next rich =>
    have spent : (frame.spend price).stack[0]? = some key := top
    rcases perform_opSload ovm runner level { world with db := db } spent with
      ⟨last, final, executed, same, kept⟩
    simp only [Operation.withGas, Operation.plain, bind_apply, executed] at ran
    cases ran
    refine ⟨?_, kept.trans listed⟩
    rw [same]
    exact Nat.sub_sub_self (Nat.not_lt.mp rich)

theorem round_sstore_paid (fetched : frame.contract.getOp frame.pc = .sstore) {value : Word}
    (top : frame.stack[0]? = some key) (below : frame.stack[1]? = some value)
    (ran : ovm.round runner level frame world = .ok ((none, next), new)) :
    frame.contract.gas - next.contract.gas =
        storePrice (world.db.getCommittedState frame.contract.self key).1
          (world.db.getState frame.contract.self key).1 value ∧
      new.db.accessList = world.db.accessList := by
  rcases round_sstore ovm runner level fetched with ⟨-, failure, failed⟩ |
    ⟨first, second, rest, slot, stack, -, shown, settled⟩
  · rw [failed] at ran
    cases ran
  rw [stack] at top below
  cases top
  cases below
  rw [getCommittedState_fst_slot, getState_fst_slot, shown]
  generalize storeRefund slot.committed slot.current value world.db.refund = outcome at settled
  cases outcome with
  | none =>
    rw [settled] at ran
    cases ran
  | some =>
    rcases settled with ⟨db, -, sameList, -, settled⟩
    split at settled
    · rcases settled with ⟨failure, last, failed⟩
      rw [failed] at ran
      cases ran
    · next free =>
      rcases settled with ⟨last, wrote, _⟩
      cases wrote.symm.trans ran
      refine ⟨?_, (OperationDB.Edits.setState db _ _ _).accessList.trans sameList⟩
      omega

variable (separated : world.db.accessList.Separated)
include separated

theorem scheduled_iff {seen : List (Address × Hash)}
    (warm : ∀ slot ∈ seen, world.db.accessList.listed slot = true)
    (cold : ∀ slot ∉ seen, world.db.accessList.listed slot = list.listed slot)
    (run : Accesses ovm runner world accesses) :
    Access.Scheduled seen accesses ↔ Access.LoadsFirst list seen accesses := by
  induction run generalizing seen with
  | nil => exact Iff.rfl
  | @load _ frame key _ world new _ fetched top ran _ ih =>
    rcases round_sload fetched top ran with ⟨paid, listed⟩
    rcases world.db.accessList.addSlot_separated separated frame.contract.self key with ⟨still, mem⟩
    have warmer : ∀ slot ∈ (frame.contract.self, key) :: seen,
        new.db.accessList.listed slot = true := by
      intro slot known
      rw [listed, mem]
      rcases mem_cons.mp known with rfl | known
      · simp
      · simp [warm slot known]
    have colder : ∀ slot ∉ (frame.contract.self, key) :: seen,
        new.db.accessList.listed slot = list.listed slot := by
      intro slot unknown
      rw [mem_cons, not_or] at unknown
      rw [listed, mem, decide_eq_false unknown.1, Bool.false_or, cold slot unknown.2]
    have later := ih (listed ▸ still) warmer colder
    have first : (if world.db.accessList.listed (frame.contract.self, key) then
          warmStorageReadCostEIP2929 else coldSloadCostEIP2929) =
        (if (frame.contract.self, key) ∉ seen then coldSloadCostEIP2929
          else warmStorageReadCostEIP2929) ↔
        ((frame.contract.self, key) ∉ seen → list.listed (frame.contract.self, key) = false) := by
      by_cases known : (frame.contract.self, key) ∈ seen
      · simp [known, warm _ known]
      rw [cold _ known]
      cases list.listed (frame.contract.self, key) with
      | false => simp [known]
      | true =>
        simp [known]
        decide
    simpa [Access.Scheduled, Access.LoadsFirst, Access.due, paid] using and_congr first later
  | @store _ frame key _ _ _ new _ fetched top below ran _ ih =>
    rcases round_sstore_paid fetched top below ran with ⟨paid, listed⟩
    by_cases known : (frame.contract.self, key) ∈ seen
    · have warmer : ∀ slot ∈ (frame.contract.self, key) :: seen,
          new.db.accessList.listed slot = true := by
        rw [listed, forall_mem_cons]
        exact ⟨warm _ known, warm⟩
      have later := ih (listed ▸ separated) warmer fun slot unknown => by
        rw [listed, cold slot fun seen => unknown (mem_cons_of_mem _ seen)]
      simpa [Access.Scheduled, Access.LoadsFirst, Access.due, paid, known] using later
    · simp [Access.Scheduled, Access.LoadsFirst, Access.due, paid, known, coldSloadCostEIP2929]

/-- Accesses pay as scheduled exactly if the first one to each slot is a read of a slot that the
access list does not hold yet. -/
theorem scheduled_iff_loadsFirst (run : Accesses ovm runner world accesses) :
    Access.Scheduled [] accesses ↔ Access.LoadsFirst world.db.accessList [] accesses :=
  scheduled_iff separated (by simp) (fun _ _ => rfl) run

end

attribute [local instance] sampleCrypto

def loadStep (key : Word) : Level × Frame :=
  ({}, { contract := { callerAddress := 0, self := 0xc0, code := [0x54], codeHash := 0, gas := 5000
                       value := 0 }
         stack := [key] })

theorem loads_twice : ∃ accesses, Accesses sampleOVM idleRunner { db := filledDB } accesses ∧
    accesses.map Access.paid = [2100, 100] :=
  ⟨_, .load {} (loadStep 7).2 7 rfl rfl rfl (.load {} (loadStep 7).2 7 rfl rfl rfl .nil), rfl⟩

theorem loads_twice_scheduled : ∃ accesses,
    Accesses sampleOVM idleRunner { db := filledDB } accesses ∧
      (Access.Scheduled [] accesses ↔ Access.LoadsFirst filledDB.accessList [] accesses) := by
  rcases loads_twice with ⟨accesses, run, -⟩
  exact ⟨accesses, run, scheduled_iff_loadsFirst (by rintro _ _ (_ | _)) run⟩

/-- A write to a slot pays for a warm slot, and the read after it for a cold one. -/
theorem store_then_load_unscheduled : ∃ accesses,
    Accesses sampleOVM idleRunner { db := filledDB } accesses ∧
      accesses.map Access.paid = [2900, 2100] ∧ ¬Access.Scheduled [] accesses :=
  ⟨_, .store {} (storeStep 5000 7 0).2 7 0 rfl rfl rfl rfl
    (.load {} (loadStep 7).2 7 rfl rfl rfl .nil), rfl,
    fun scheduled => absurd scheduled.1 (by decide)⟩

end Octopus
